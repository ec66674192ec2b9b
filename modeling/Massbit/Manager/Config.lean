/-
The chains that are configured on the command line (`config.rs`).
-/
import Massbit.Lib.GroupBy
import Mathlib.Data.Finset.Sort
import Mathlib.Data.String.Basic

open List Except

namespace Massbit.Manager

inductive Transport where
  | rpc
  | ws
  | ipc
  deriving DecidableEq

def Transport.display : Transport → String
  | rpc => "rpc"
  | ws => "ws"
  | ipc => "ipc"

structure Web3Provider where
  transport : Transport
  url : String
  features : Finset String
  headers : List (String × String)
  deriving DecidableEq

inductive ProviderDetails where
  | firehose (url : String) (token : Option String)
  | web3 (provider : Web3Provider)
  deriving DecidableEq

structure Provider where
  label : String
  details : ProviderDetails
  deriving DecidableEq

def providerFeatures : List String := ["traces", "archive", "no_eip1898"]

def defaultProviderFeatures : List String := ["traces", "archive"]

def Web3Provider.validateFeatures (label : String) (self : Web3Provider) : Except String Unit :=
  match (self.features.sort (· ≤ ·)).find? (· ∉ providerFeatures) with
  | some feature => .error ("illegal feature `" ++ feature ++ "` for provider " ++ label ++
      ". Features must be one of " ++ ", ".intercalate providerFeatures)
  | none => .ok ()

abbrev Chains := HashMap String (List Provider)

def splitAtColon (s : List Char) : Option (List Char × List Char) :=
  if ':' ∈ s then some (s.takeWhile (· ≠ ':'), (s.dropWhile (· ≠ ':')).tail) else none

def urlSchemes : List String := ["http", "https", "ws", "wss"]

def web3Provider (name : String) (transport : Transport) (nr : ℕ) (url : String)
    (features : List String) : Provider where
  label := name ++ "-" ++ transport.display ++ "-" ++ toString nr
  details := .web3 { transport, url, features := features.toFinset, headers := [] }

def parseNetwork (transport : Transport) (nr : ℕ) (arg : String) :
    Except String (String × Provider) :=
  if ["wss://", "http://", "https://"].any fun scheme => scheme.toList.isPrefixOf arg.toList then
    .error ("Is your Ethereum node string missing a network name? " ++
      "Try 'mainnet:' + the Ethereum node URL.")
  else
    let noName := "A network name must be provided alongside the Ethereum node location. " ++
      "Try e.g. 'mainnet:URL'."
    match splitAtColon arg.toList with
    | none => .error noName
    | some (name, rest) =>
      if name.isEmpty then .error "Ethereum network name cannot be an empty string"
      else if rest.isEmpty then .error "Ethereum node URL cannot be an empty string"
      else
        match splitAtColon rest with
        | none => .error noName
        | some (features, url) =>
          let provider := web3Provider (.ofList name) transport nr
          .ok (.ofList name,
            if String.ofList features ∈ urlSchemes then
              provider (.ofList rest) defaultProviderFeatures
            else provider (.ofList url) ((features.splitOn ',').map String.ofList))

def parseNetworks (chains : Chains) (transport : Transport) (args : List String) :
    Except String Chains :=
  args.zipIdx.foldlM (fun chains e => do
    return pushAt chains (← parseNetwork transport e.2 e.1)) chains

structure Opt where
  ethereumRpc : List String
  ethereumWs : List String
  ethereumIpc : List String

def fromOpt (opt : Opt) : Except String Chains := do
  let chains ← parseNetworks ∅ .rpc opt.ethereumRpc
  let chains ← parseNetworks chains .ws opt.ethereumWs
  parseNetworks chains .ipc opt.ethereumIpc

inductive Capabilities where
  | listed (features : List String)
  | empty
  | omitted

structure NetworkArg where
  name : String
  capabilities : Capabilities
  url : String

namespace NetworkArg

def text (self : NetworkArg) : String :=
  .ofList (self.name.toList ++ ':' :: match self.capabilities with
    | .listed features => [','].intercalate (features.map String.toList) ++ ':' :: self.url.toList
    | .empty => ':' :: self.url.toList
    | .omitted => self.url.toList)

structure Documented (arg : NetworkArg) : Prop where
  name : ':' ∉ arg.name.toList
  url : ∃ scheme ∈ urlSchemes, ∃ rest, arg.url = scheme ++ ":" ++ rest
  listed : ∀ features, arg.capabilities = .listed features →
    features ≠ [] ∧ ∀ f ∈ features, f ∈ providerFeatures

def features (self : NetworkArg) : List String :=
  match self.capabilities with
  | .listed features => features
  | _ => defaultProviderFeatures

def provider (transport : Transport) (self : NetworkArg) (nr : ℕ) : Provider :=
  web3Provider self.name transport nr self.url self.features

end NetworkArg

/-- Every argument adds its provider to the chain of its name, in order, and the features of the
provider are valid. -/
def ParsesRight (chains : Chains) (transport : Transport) (args : List NetworkArg) : Prop :=
  ∃ chains', parseNetworks chains transport (args.map NetworkArg.text) = .ok chains' ∧
    (∀ name, (chains'.lookup name).getD [] = (chains.lookup name).getD [] ++
      (args.zipIdx.filter fun e => e.1.name = name).map fun e => e.1.provider transport e.2) ∧
    ∀ arg ∈ args, ∀ nr web3, (arg.provider transport nr).details = .web3 web3 →
      web3.validateFeatures (arg.provider transport nr).label = .ok ()

theorem splitAtColon_append {a : List Char} (h : ':' ∉ a) (b : List Char) :
    splitAtColon (a ++ ':' :: b) = some (a, b) := by
  have hp : ∀ c ∈ a, decide (c ≠ ':') := by grind
  unfold splitAtColon
  rw [if_pos (by simp), takeWhile_append_of_pos hp, dropWhile_append_of_pos hp]
  simp

variable {name x y : List Char}

theorem parseNetwork_eq (transport : Transport) (nr : ℕ) (hn : ':' ∉ name) (hx : ':' ∉ x)
    (hs : '/' ∉ x) :
    parseNetwork transport nr (.ofList (name ++ ':' :: (x ++ ':' :: y))) =
      if name.isEmpty then .error "Ethereum network name cannot be an empty string"
      else .ok (.ofList name, if String.ofList x ∈ urlSchemes then
          web3Provider (.ofList name) transport nr (.ofList (x ++ ':' :: y)) defaultProviderFeatures
        else web3Provider (.ofList name) transport nr (.ofList y)
          ((x.splitOn ',').map String.ofList)) := by
  have hp (s : List Char) (hs : ':' ∉ s) :
      ¬s ++ [':', '/', '/'] <+: name ++ ':' :: (x ++ ':' :: y) := by
    rintro ⟨z, hz⟩
    have he := congrArg splitAtColon hz
    rw [splitAtColon_append hn, append_assoc, cons_append, splitAtColon_append hs] at he
    cases x <;> simp_all
  have hf : ¬["wss://", "http://", "https://"].any fun scheme =>
      scheme.toList.isPrefixOf (name ++ ':' :: (x ++ ':' :: y)) := by
    simp only [any_cons, any_nil, Bool.or_false, Bool.or_eq_true, isPrefixOf_iff_prefix, not_or]
    exact ⟨hp ['w', 's', 's'] (by decide), hp ['h', 't', 't', 'p'] (by decide),
      hp ['h', 't', 't', 'p', 's'] (by decide)⟩
  unfold parseNetwork
  rw [String.toList_ofList, if_neg hf]
  have hr : (x ++ ':' :: y).isEmpty = false := by simp
  simp only [splitAtColon_append hn, splitAtColon_append hx, hr, Bool.false_eq_true, if_false]

theorem notMem_intercalate {c : Char} (hc : c ≠ ',') : ∀ {ls : List (List Char)},
    (∀ l ∈ ls, c ∉ l) → c ∉ [','].intercalate ls
  | [], _ => by simp
  | [l], h => by simpa using h
  | l :: l' :: ls, h => by
    have ih := notMem_intercalate hc fun k hk => h k (mem_cons_of_mem l hk)
    simpa [intercalate_cons_cons, hc] using ⟨h l mem_cons_self, ih⟩

theorem notMem_scheme : ∀ s ∈ urlSchemes, ':' ∉ s.toList ∧ '/' ∉ s.toList := by decide

theorem notMem_feature : ∀ f ∈ providerFeatures, (∀ c ∈ [':', '/', ','], c ∉ f.toList) ∧
    ∀ s ∈ urlSchemes, ¬f.toList <+: s.toList := by
  simp only [providerFeatures, urlSchemes, forall_mem_cons, not_mem_nil, IsEmpty.forall_iff,
    implies_true, and_true]
  decide

theorem features_split {fs : List String} (hne : fs ≠ []) (hf : ∀ f ∈ fs, f ∈ providerFeatures) :
    ((([','].intercalate (fs.map String.toList)).splitOn ',').map String.ofList = fs) ∧
      String.ofList ([','].intercalate (fs.map String.toList)) ∉ urlSchemes ∧
      ∀ c ∈ [':', '/'], c ∉ [','].intercalate (fs.map String.toList) := by
  have hno {c : Char} (hc : c ∈ [':', '/', ',']) : ∀ l ∈ fs.map String.toList, c ∉ l := by
    intro l hl
    obtain ⟨f, hm, rfl⟩ := mem_map.1 hl
    exact (notMem_feature f (hf f hm)).1 c hc
  refine ⟨?_, fun hu => ?_, fun c hc => notMem_intercalate ?_ (hno (by grind))⟩
  · rw [splitOn_intercalate ',' (hno (by simp)) (by simpa)]
    simp
  · obtain ⟨f, fs, rfl⟩ := exists_cons_of_ne_nil hne
    refine (notMem_feature f (hf f mem_cons_self)).2 _ hu ?_
    rw [String.toList_ofList]
    cases fs <;> simp [intercalate_cons_cons]
  · rintro rfl
    simp at hc

variable {arg : NetworkArg} {transport : Transport} {nr : ℕ}

def NetworkArg.parsed (transport : Transport) (self : NetworkArg) (nr : ℕ) : Provider :=
  match self.capabilities with
  | .empty => web3Provider self.name transport nr self.url [""]
  | _ => self.provider transport nr

theorem parseNetwork_text (hd : arg.Documented) : parseNetwork transport nr arg.text =
    if arg.name = "" then .error "Ethereum network name cannot be an empty string"
    else .ok (arg.name, arg.parsed transport nr) := by
  obtain ⟨name, cap, url⟩ := arg
  obtain ⟨hn, ⟨scheme, hm, rest, hr⟩, hc⟩ := hd
  rcases cap with fs | - | -
  · obtain ⟨hne, hf⟩ := hc fs rfl
    obtain ⟨hs, hu, hno⟩ := features_split hne hf
    refine (parseNetwork_eq transport nr hn (hno _ (by simp)) (hno _ (by simp))).trans ?_
    simp [hs, hu, NetworkArg.parsed, NetworkArg.provider, NetworkArg.features]
  · refine (parseNetwork_eq transport nr (x := []) hn nofun nofun).trans ?_
    rw [if_neg (by decide : String.ofList [] ∉ urlSchemes)]
    simp [NetworkArg.parsed]
  · obtain ⟨hcs, hss⟩ := notMem_scheme scheme hm
    have ht : scheme.toList ++ ':' :: rest.toList = url.toList := by
      rw [show url = scheme ++ ":" ++ rest from hr]
      simp
    have he := parseNetwork_eq transport nr (y := rest.toList) hn hcs hss
    rw [ht] at he
    refine he.trans ?_
    simp [hm, NetworkArg.parsed, NetworkArg.provider, NetworkArg.features]

theorem parsed_eq_iff : arg.parsed transport nr = arg.provider transport nr ↔
    arg.capabilities ≠ .empty := by
  obtain ⟨name, cap, url⟩ := arg
  rcases cap with fs | - | -
  · simp [NetworkArg.parsed]
  · have hf : [""].toFinset ≠ defaultProviderFeatures.toFinset := by decide
    simpa [NetworkArg.parsed, NetworkArg.provider, NetworkArg.features, web3Provider] using hf
  · simp [NetworkArg.parsed]

theorem parseNetworks_eq_ok {chains chains' : Chains} {args : List String} :
    parseNetworks chains transport args = .ok chains' ↔
      ∃ es, args.zipIdx.mapM (fun e => parseNetwork transport e.2 e.1) = .ok es ∧
        chains' = es.foldl pushAt chains := by
  unfold parseNetworks
  induction args.zipIdx generalizing chains with
  | nil => simp [eq_comm, pure, Except.pure]
  | cons e l ih =>
    rw [foldlM_cons, mapM_cons]
    constructor
    · intro h
      obtain ⟨c, hc, hl⟩ := bind_eq_ok.1 h
      obtain ⟨x, hx, hp⟩ := bind_eq_ok.1 hc
      obtain ⟨es, he, rfl⟩ := ih.1 hl
      cases hp
      exact ⟨x :: es, by rw [hx, he]; rfl, rfl⟩
    · rintro ⟨es, he, rfl⟩
      obtain ⟨x, hx, hr⟩ := bind_eq_ok.1 he
      obtain ⟨es, hl, hp⟩ := bind_eq_ok.1 hr
      cases hp
      rw [hx]
      exact ih.2 ⟨es, hl, rfl⟩

theorem eq_of_filter_eq {A : Type} : ∀ {l l' : List (String × A)},
    l.map Prod.fst = l'.map Prod.fst →
    (∀ k, (l.filter (·.1 = k)).map Prod.snd = (l'.filter (·.1 = k)).map Prod.snd) → l = l'
  | [], [], _, _ => rfl
  | (k, a) :: l, (k', a') :: l', hk, hf => by
    obtain ⟨rfl, hk'⟩ : k = k' ∧ l.map Prod.fst = l'.map Prod.fst := by simpa using hk
    have hh := hf k
    rw [filter_cons_of_pos (by simp), filter_cons_of_pos (by simp), map_cons, map_cons] at hh
    obtain ⟨rfl, ht⟩ := cons_eq_cons.1 hh
    rw [eq_of_filter_eq hk' fun j => ?_]
    by_cases hj : k = j
    · exact hj ▸ ht
    · simpa [hj] using hf j

theorem NetworkArg.Documented.mem_providerFeatures (hd : arg.Documented) :
    ∀ f ∈ arg.features, f ∈ providerFeatures := by
  unfold NetworkArg.features
  split
  · exact (hd.listed _ ‹_›).2
  · decide

theorem validateFeatures_of_forall {web3 : Web3Provider} (label : String)
    (h : ∀ f ∈ web3.features, f ∈ providerFeatures) : web3.validateFeatures label = .ok () := by
  have hf : (web3.features.sort (· ≤ ·)).find? (· ∉ providerFeatures) = none := by
    simpa using h
  rw [Web3Provider.validateFeatures, hf]

/-- **All arguments add their providers if and only if each has a name and none an empty list of
capabilities**: for `NAME::URL` the default features are not taken. -/
theorem parsesRight_iff {chains : Chains} {args : List NetworkArg}
    (hd : ∀ arg ∈ args, arg.Documented) : ParsesRight chains transport args ↔
      ∀ arg ∈ args, arg.name ≠ "" ∧ arg.capabilities ≠ .empty := by
  let right (e : NetworkArg × ℕ) := (e.1.name, e.1.provider transport e.2)
  let parsed (e : NetworkArg × ℕ) := (e.1.name, e.1.parsed transport e.2)
  have hz : (args.map NetworkArg.text).zipIdx = args.zipIdx.map fun e => (e.1.text, e.2) := by
    rw [zipIdx_map]
    rfl
  have hf (name : String) : ((args.zipIdx.map right).filter (·.1 = name)).map Prod.snd =
      (args.zipIdx.filter fun e => e.1.name = name).map fun e => e.1.provider transport e.2 := by
    rw [filter_map, map_map]
    rfl
  have hp (e) (he : e ∈ args.zipIdx) := @parseNetwork_text e.1 transport e.2
    (hd e.1 (fst_mem_of_mem_zipIdx he))
  have hm {P : NetworkArg → Prop} : (∀ e ∈ args.zipIdx, P e.1) ↔ ∀ arg ∈ args, P arg := by
    constructor
    · intro h arg ha
      obtain ⟨i, hi⟩ := getElem?_of_mem ha
      exact h (arg, i) (mk_mem_zipIdx_iff_getElem?.2 hi)
    · exact fun h e he => h e.1 (fst_mem_of_mem_zipIdx he)
  -- if all arguments have names, the loop pushes what they are parsed to
  have hr (hn : ∀ e ∈ args.zipIdx, e.1.name ≠ "") :
      parseNetworks chains transport (args.map NetworkArg.text)
        = .ok ((args.zipIdx.map parsed).foldl pushAt chains) := by
    refine parseNetworks_eq_ok.2 ⟨_, ?_, rfl⟩
    rw [hz, mapM_map]
    exact mapM_eq_map fun e he => (hp e he).trans (if_neg (hn e he))
  rw [← hm]
  constructor
  · rintro ⟨chains', hc, hl, -⟩
    obtain ⟨es, he, -⟩ := parseNetworks_eq_ok.1 hc
    have hn : ∀ e ∈ args.zipIdx, e.1.name ≠ "" := by
      intro e hm h
      have hx := exists_mapM_iff.1 ⟨es, he⟩ (e.1.text, e.2) (hz ▸ mem_map_of_mem hm)
      rw [hp e hm, if_pos h] at hx
      exact absurd hx (by simp)
    obtain rfl := Except.ok.inj ((hr hn).symm.trans hc)
    have heq : args.zipIdx.map parsed = args.zipIdx.map right := by
      refine eq_of_filter_eq (by simp [parsed, right]) fun name => ?_
      have h := hl name
      rw [getD_lookup_foldl_pushAt] at h
      rw [append_cancel_left h, hf]
    intro e hm
    exact ⟨hn e hm, parsed_eq_iff.1 (congrArg Prod.snd (map_inj_left.1 heq e hm))⟩
  · intro h
    have heq : args.zipIdx.map parsed = args.zipIdx.map right :=
      map_inj_left.2 fun e hm => congrArg (Prod.mk _) (parsed_eq_iff.2 (h e hm).2)
    refine ⟨_, hr fun e hm => (h e hm).1, fun name => ?_, fun arg ha nr web3 hw => ?_⟩
    · rw [getD_lookup_foldl_pushAt, heq, hf]
    · cases hw
      exact validateFeatures_of_forall _ fun f hf =>
        (hd arg ha).mem_providerFeatures f (mem_toFinset.1 hf)

def mainnetArgs : List NetworkArg :=
  [⟨"mainnet", .listed ["archive", "traces"], "https://localhost:8545"⟩,
    ⟨"mainnet", .omitted, "ws://localhost:8546"⟩]

theorem mainnet_parsesRight : (∀ arg ∈ mainnetArgs, arg.Documented) ∧
    ParsesRight ∅ .rpc mainnetArgs := by
  have hd : ∀ arg ∈ mainnetArgs, arg.Documented := by
    intro arg ha
    rcases mem_pair.1 ha with rfl | rfl
    · exact ⟨by decide, ⟨"https", by decide, "//localhost:8545", rfl⟩, by rintro _ ⟨⟩; decide⟩
    · exact ⟨by decide, ⟨"ws", by decide, "//localhost:8546", rfl⟩, nofun⟩
  exact ⟨hd, (parsesRight_iff hd).2 (by simp [mainnetArgs])⟩

theorem empty_capabilities_invalid : ∃ chains web3,
    parseNetworks ∅ .rpc ["mainnet::https://localhost"] = .ok chains ∧
      chains.lookup "mainnet" = some [⟨"mainnet-rpc-0", .web3 web3⟩] ∧ web3.features = {""} ∧
      web3.validateFeatures "mainnet-rpc-0" = .error
        "illegal feature `` for provider mainnet-rpc-0. Features must be one of traces, archive, no_eip1898" :=
  ⟨_, ⟨.rpc, "https://localhost", {""}, []⟩, rfl, rfl, rfl, by
    simp [Web3Provider.validateFeatures, Finset.sort_singleton, providerFeatures]⟩

end Massbit.Manager
