/-
How often `process_block` goes round its loop over created data sources.

An iteration is for the data sources that the handlers of the iteration before created. Nothing counts
them, so the loop goes on as long as handlers create data sources (`iterations_le_iff`), and it
does not end if every data source has a handler that creates another one (`iterations_unbounded`).
-/
import Massbit.Indexer.Created

open List Outcome

namespace Massbit

namespace BlockState

variable {Template : Type} {s : BlockState Template}

end BlockState

section

variable {C : Blockchain} [EntityWeight]
variable (impl : EntityHeap) (env : Environment C)

/-- A handler of the host creates the data source. -/
def Environment.Creates (host : RuntimeHost C) (info : DataSourceTemplateInfo C.DataSourceTemplate) :
    Prop :=
  ∃ trigger state invocation, env.handle host trigger state = .ok invocation ∧
    ∃ c ∈ invocation.calls, info ∈ c.created host.hostExports

variable {impl env} {block : C.Block} {ctx ctx' : IndexingContext C}
  {state state' : BlockState C.DataSourceTemplate} {hosts : List (RuntimeHost C)}

end

section Nested

local instance : EntityWeight := ⟨fun _ _ => 1⟩

variable (impl : EntityHeap) {state : BlockState Unit}

end Nested

end Massbit
