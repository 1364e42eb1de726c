/-
# Text.Checkpoint — a value, and the earlier values it can go back to

Scanning keeps no hidden state, so a lexer or a cursor set aside is that value itself and going
back to it is exact (`restore_save`). `Checkpointed` keeps them as a stack: the value saved last is
restored first, and with nothing saved there is nothing to restore.
-/

namespace CobolSource

set_option autoImplicit false

structure Checkpointed (α : Type) where
  current : α
  saved : List α := []

namespace Checkpointed

variable {α : Type}

def update (state : Checkpointed α) (current : α) : Checkpointed α :=
  { state with current }

def save (state : Checkpointed α) : Checkpointed α :=
  { state with saved := state.current :: state.saved }

/-- The value saved last becomes the current one. -/
def restore? (state : Checkpointed α) : Option (Checkpointed α) :=
  match state.saved with
  | [] => none
  | last :: earlier => some ⟨last, earlier⟩

/-- Whatever becomes of the current value, the one set aside comes back. -/
theorem restore_save (state : Checkpointed α) (later : α) :
    (state.save.update later).restore? = some state := rfl

end Checkpointed

end CobolSource
