/-
A file with one JSON value in each line, as a stream (`LinkResolver::json_stream`).
-/
import Mathlib.Data.List.Forall2

open List

namespace Massbit.LinkResolver

def newline : UInt8 := 10

structure JsonError where
  text : String
  line : ℕ
  column : ℕ

structure Libraries (V : Type) where
  fromUtf8 : List UInt8 → Except String String
  fromStr : String → Except JsonError V
  fromUtf8_newline : ∀ {bytes text}, fromUtf8 bytes = .ok text →
    fromUtf8 (bytes ++ [newline]) = .ok (text ++ "\n")
  fromStr_newline : ∀ {text value}, fromStr text = .ok value → fromStr (text ++ "\n") = .ok value

structure JsonStreamValue (V : Type) where
  value : V
  line : ℕ

inductive StreamPoll (V : Type) where
  | notReady
  | ready (value : Option (JsonStreamValue V))
  | error (text : String)

abbrev Answer := Option (List UInt8)

structure JsonStream where
  buf : List UInt8 := []
  count : ℕ := 0
  stream : List Answer

def jsonStream (stream : List Answer) : JsonStream := { stream }

section

variable {V : Type} (lib : Libraries V)

def readLine (lineBytes : List UInt8) (count : ℕ) : StreamPoll V :=
  match lib.fromUtf8 lineBytes with
  | .error e => .error e
  | .ok line =>
    match lib.fromStr line with
    | .ok v => .ready (some ⟨v, count⟩)
    | .error e =>
      -- the line number within the file
      .error ((e.text.splitOn " at line ").headD "" ++ " at line " ++ toString (e.line + count - 1)
        ++ " column " ++ toString e.column ++ ": '" ++ line ++ "'")

def turn (self : JsonStream) : JsonStream × Option (StreamPoll V) :=
  match self.buf.idxOf? newline with
  | some offset =>
    let lineBytes := self.buf.take (offset + 1)
    let self := { self with buf := self.buf.drop (offset + 1), count := self.count + 1 }
    (self, if lineBytes.length > 1 then some (readLine lib lineBytes self.count) else none)
  | none =>
    match self.stream with
    | none :: stream => ({ self with stream }, some .notReady)
    | some b :: stream => ({ self with buf := self.buf ++ b, stream }, none)
    | [] =>
      if self.buf.length > 0 then ({ self with buf := self.buf ++ [newline] }, none)
      else (self, some (.ready none))

def drive : ℕ → JsonStream → Option (Except String (List (JsonStreamValue V)))
  | 0, _ => none
  | fuel + 1, self =>
    match turn lib self with
    | (self, none) | (self, some .notReady) => drive fuel self
    | (self, some (.ready (some value))) => (drive fuel self).map (·.map (value :: ·))
    | (_, some (.ready none)) => some (.ok [])
    | (_, some (.error e)) => some (.error e)

end

def contentOf (stream : List Answer) : List UInt8 := stream.flatMap (·.getD [])

@[simp] theorem contentOf_nil : contentOf [] = [] := rfl

@[simp] theorem contentOf_none (stream : List Answer) :
    contentOf (none :: stream) = contentOf stream := rfl

@[simp] theorem contentOf_some (b : List UInt8) (stream : List Answer) :
    contentOf (some b :: stream) = b ++ contentOf stream := rfl

def numberedLines (count : ℕ) (content : List UInt8) : List (List UInt8 × ℕ) :=
  ((content.splitOn newline).zipIdx (count + 1)).filter (·.1 ≠ [])

variable {V : Type} {lib : Libraries V} {line : List UInt8}

theorem numberedLines_append (h : newline ∉ line) (c : ℕ) (rest : List UInt8) :
    numberedLines c (line ++ newline :: rest) =
      (if line = [] then [] else [(line, c + 1)]) ++ numberedLines (c + 1) rest := by
  rw [numberedLines, splitOn_append_cons_self_of_not_mem h, zipIdx_cons, filter_cons]
  split_ifs <;> simp_all [numberedLines]

theorem numberedLines_of_notMem (h : newline ∉ line) (c : ℕ) :
    numberedLines c line = if line = [] then [] else [(line, c + 1)] := by
  rw [numberedLines, splitOn_eq_singleton h, zipIdx_cons, filter_cons]
  split_ifs <;> simp_all

def IsValue (lib : Libraries V) (line : List UInt8 × ℕ) (value : JsonStreamValue V) : Prop :=
  value.line = line.2 ∧ ∃ text, lib.fromUtf8 line.1 = .ok text ∧ lib.fromStr text = .ok value.value

theorem readLine_eq {c : ℕ} {v : JsonStreamValue V} (h : IsValue lib (line, c) v) :
    readLine lib (line ++ [newline]) c = .ready (some v) := by
  obtain ⟨rfl, text, ht, hv⟩ := h
  rw [readLine, lib.fromUtf8_newline ht]
  simp [lib.fromStr_newline hv]

theorem turn_line (h : newline ∉ line) (rest : List UInt8) (c : ℕ) (s : List Answer) :
    turn lib ⟨line ++ newline :: rest, c, s⟩ = (⟨rest, c + 1, s⟩,
        if line = [] then none else some (readLine lib (line ++ [newline]) (c + 1))) := by
  have ho : (line ++ newline :: rest).idxOf? newline = some line.length := by
    simp [idxOf?_eq_some_iff, getElem_append]
    grind
  have ht : (line ++ newline :: rest).take (line.length + 1) = line ++ [newline] := by
    simp [take_append, take_of_length_le]
  have hd : (line ++ newline :: rest).drop (line.length + 1) = rest := by
    simp [drop_append]
  simp only [turn, ho, ht, hd]
  cases line <;> simp

theorem drive_line (h : newline ∉ line) (rest : List UInt8) {c : ℕ} (s : List Answer)
    {vs : List (JsonStreamValue V)} {fuel : ℕ}
    (hr : ∀ vs, Forall₂ (IsValue lib) (numberedLines (c + 1) (rest ++ contentOf s))
      vs → drive lib fuel ⟨rest, c + 1, s⟩ = some (.ok vs))
    (hv : Forall₂ (IsValue lib) (numberedLines c (line ++ newline :: rest ++ contentOf s)) vs) :
    drive lib (fuel + 1) ⟨line ++ newline :: rest, c, s⟩ = some (.ok vs) := by
  rw [append_assoc, cons_append, numberedLines_append h] at hv
  rw [drive, turn_line h]
  split_ifs at hv ⊢ with hl
  · exact hr _ hv
  · obtain ⟨v, vs, hva, ht, rfl⟩ := forall₂_cons_left_iff.1 hv
    simp [readLine_eq hva, hr _ ht, Except.map]

theorem drive_eq_ok : ∀ {fuel : ℕ} {buf : List UInt8} {c : ℕ} {s : List Answer}
    {vs : List (JsonStreamValue V)},
    2 * (buf ++ contentOf s).length + s.length + 3 ≤ fuel →
    Forall₂ (IsValue lib) (numberedLines c (buf ++ contentOf s)) vs →
    drive lib fuel ⟨buf, c, s⟩ = some (.ok vs)
  | 0, _, _, _, _, hf, _ => absurd hf (by omega)
  | fuel + 1, buf, c, s, vs, hf, hv => by
    by_cases hb : newline ∈ buf
    · obtain ⟨line, rest, rfl, hl⟩ := eq_append_cons_of_mem hb
      refine drive_line hl rest s (fun _ hr => drive_eq_ok ?_ hr) hv
      simp at hf ⊢
      omega
    have ho : buf.idxOf? newline = none := idxOf?_eq_none_iff.2 hb
    match s with
    | none :: s =>
      simp only [drive, turn, ho]
      refine drive_eq_ok ?_ (by simpa using hv)
      simp at hf ⊢
      omega
    | some b :: s =>
      simp only [drive, turn, ho]
      refine drive_eq_ok ?_ (by simpa using hv)
      simp at hf ⊢
      omega
    | [] =>
      rcases eq_or_ne buf [] with rfl | hne
      · simp_all [drive, turn, numberedLines_of_notMem]
      -- the last line has no newline: it gets one, and the next turns take it and end
      obtain ⟨fuel, rfl⟩ : ∃ n, fuel = n + 2 := ⟨fuel - 2, by simp at hf; omega⟩
      rw [drive]
      simp only [turn, ho, length_pos_iff.2 hne, if_true]
      refine drive_line hb [] [] (fun vs hv => ?_) ?_
      · simp_all [drive, turn, numberedLines_of_notMem]
      · simpa [numberedLines_append hb, numberedLines_of_notMem, hb] using hv

/-- If every line that is not empty has a value, the stream yields these values with their line
numbers and ends, for every way to cut the file into chunks. -/
theorem jsonStream_values {content : List UInt8} {values : List (JsonStreamValue V)}
    (hvalues : Forall₂ (IsValue lib) (numberedLines 0 content) values) {stream : List Answer}
    (hstream : contentOf stream = content) {fuel : ℕ}
    (hfuel : 2 * content.length + stream.length + 3 ≤ fuel) :
    drive lib fuel (jsonStream stream) = some (.ok values) := by
  subst hstream
  exact drive_eq_ok hfuel hvalues

def asciiLines : Libraries (List Char) where
  fromUtf8 bytes := .ok (String.ofList (bytes.map fun b => Char.ofNat b.toNat))
  fromStr text := .ok (text.toList.filter (· != '\n'))
  fromUtf8_newline := by
    rintro bytes text ⟨⟩
    simp [String.ofList_append, newline]
  fromStr_newline := by
    rintro text value ⟨⟩
    simp

theorem values_five_seventyeight :
    drive asciiLines 30 (jsonStream [none, some [53, 10, 10, 55], some [], some [56]])
      = some (.ok [⟨['5'], 1⟩, ⟨['7', '8'], 3⟩]) :=
  jsonStream_values (.cons ⟨rfl, _, rfl, rfl⟩ (.cons ⟨rfl, _, rfl, rfl⟩ .nil)) rfl (by decide)

end Massbit.LinkResolver
