/-
# Scan.Settings — the choices a source leaves to its reader

Two things about a source are not written in it: which character opens a line comment, and whether
a byte order mark at its start is to be passed over. A comment indicator must be a character with
no other meaning, or it would hide a token, or the mark. `Settings.Valid` says so, and a lexer is
only ever made with settings that are valid.
-/
import CobolSource.Text.Alphabet

namespace CobolSource

set_option autoImplicit false

structure Settings where
  /-- The character that opens a line comment where a token would start. -/
  commentIndicator : Char := '*'
  /-- Whether one byte order mark at the very start of a source is no part of it. -/
  skipMark : Bool := true
  deriving DecidableEq, Repr, Inhabited

inductive SettingsError where
  | invalidCommentIndicator (c : Char)
  deriving DecidableEq, Repr

def SettingsError.message : SettingsError → String
  | .invalidCommentIndicator c =>
      "invalid comment indicator '" ++ String.singleton c ++
        "': character already starts a token or is whitespace"

namespace Settings

def Valid (settings : Settings) : Prop :=
  isReserved settings.commentIndicator = false ∧ settings.commentIndicator ≠ byteOrderMark

instance (settings : Settings) : Decidable settings.Valid :=
  inferInstanceAs (Decidable (_ ∧ _))

/-- Why the settings are refused. -/
def refusal (settings : Settings) : SettingsError :=
  .invalidCommentIndicator settings.commentIndicator

def validate (settings : Settings) : Except SettingsError Unit :=
  if settings.Valid then .ok () else .error settings.refusal

theorem valid_default : Valid {} := by decide

theorem validate_eq_ok_iff {settings : Settings} :
    settings.validate = .ok () ↔ settings.Valid := by
  by_cases h : settings.Valid <;> simp [validate, h]

end Settings

end CobolSource
