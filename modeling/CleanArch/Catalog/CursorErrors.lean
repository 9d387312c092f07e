import CleanArch.Catalog.Cursor
import Mathlib.Algebra.Group.Int.Defs
import Mathlib.Algebra.Group.Nat.Defs

/-!
# The exceptions of the cursor

`decode_cursor` of `CursorCodec` on any text (`app/core/pagination/cursor.py`), with the exceptions
of the libraries that it calls (`CursorLib`).

- **Handlers.** `binascii.Error`, `UnicodeError` and `JSONDecodeError` are `ValueError`s. What a
  handler does not name leaves the function (`CursorFailure.escaped`).
- The JSON decoder raises `RecursionError` when lists are nested too deeply, and `astimezone` raises
  `OverflowError` when the instant is before the year 1 or after the year 9999. Neither is a
  `ValueError`.
-/

namespace CleanArch

open Lexing

inductive ExceptionKind where
  | valueError
  | typeError
  | overflowError
  | recursionError
  deriving DecidableEq

structure PyException where
  kind : ExceptionKind
  text : String
  deriving DecidableEq

inductive CursorFailure where
  | invalidCursor (e : InvalidCursorException)
  | escaped (e : PyException)
  deriving DecidableEq

/-- `try: … except caught as exc: raise InvalidCursorException(f"{message}{exc}") from exc`. -/
def catching {α : Type} (caught : List ExceptionKind) (message : String) :
    Except PyException α → Except CursorFailure α
  | .ok a => .ok a
  | .error e =>
    if e.kind ∈ caught then .error (.invalidCursor ⟨message ++ e.text⟩) else .error (.escaped e)

/-- The years 1 to 9999, with the clock counted from the start of year 1. -/
def DateTime.InRange (t : DateTime) : Prop := 0 ≤ t.clock ∧ t.clock < 3652059 * 86400 * 10 ^ 6

instance (t : DateTime) : Decidable t.InRange := inferInstanceAs (Decidable (_ ∧ _))

/-- What `base64`, `bytes.decode`, `json` and `datetime` do. A text as the error is that of a
`ValueError`. -/
structure CursorLib where
  urlsafeB64decode : List Char → Except String (List UInt8)
  decodeUtf8 : List UInt8 → Except String String
  loads : String → Except PyException Json
  fromisoformat : String → Except String DateTime
  loads_raises : ∀ s e, loads s = .error e → e.kind = .valueError ∨ e.kind = .recursionError
  fromisoformat_range : ∀ s t, fromisoformat s = .ok t →
    t.InRange ∧ ∀ offset ∈ t.offset, offset.natAbs < 86400 * 10 ^ 6

namespace CursorLib

variable (L : CursorLib)

/-- The first `try` of `decode_cursor`. -/
def parsePayload (cleanCursor : List Char) : Except PyException Json := do
  let rawBytes ← (L.urlsafeB64decode (Base64.padded cleanCursor)).mapError (⟨.valueError, ·⟩)
  let text ← (L.decodeUtf8 rawBytes).mapError (⟨.valueError, ·⟩)
  L.loads text

/-- The second `try` of `decode_cursor`. -/
def parseTimestamp (iso : String) : Except PyException DateTime := do
  let parsed ← (L.fromisoformat iso).mapError (⟨.valueError, ·⟩)
  if parsed.offset = none ∨ parsed.utc.InRange then .ok parsed.utc
  else .error ⟨.overflowError, "date value out of range"⟩

def decodeFields : Json → Json → Except CursorFailure (DateTime × Json)
  | _, .null => .error (.invalidCursor
      ⟨"Invalid cursor fields: timestamp must be string and id must not be null."⟩)
  | .str iso, rawId => do
    let parsed ← catching [.valueError, .typeError] "Invalid ISO-8601 timestamp in cursor: "
      (L.parseTimestamp iso)
    .ok (parsed, rawId)
  | _, _ => .error (.invalidCursor
      ⟨"Invalid cursor fields: timestamp must be string and id must not be null."⟩)

def decodeCursor [PyChar] (cursor : String) : Except CursorFailure (DateTime × Json) :=
  if cursor.toList.isEmpty then
    .error (.invalidCursor ⟨"Pagination cursor token cannot be empty or non-string."⟩)
  else
    let cleanCursor := trim PyChar.space cursor.toList
    if cleanCursor.isEmpty then
      .error (.invalidCursor ⟨"Pagination cursor token cannot be whitespace."⟩)
    else do
      let payload ← catching [.valueError]
        "Invalid, malformed, or tampered pagination cursor token: " (L.parsePayload cleanCursor)
      match payload with
      | .list [isoTimestamp, rawId] => L.decodeFields isoTimestamp rawId
      | _ => .error (.invalidCursor
          ⟨"Invalid cursor structure: expected composite tuple [created_at, id]."⟩)

/-- A UTC time and an id are returned, or an `InvalidCursorException` is raised. -/
def Handled (r : Except CursorFailure (DateTime × Json)) : Prop :=
  (∃ t id, r = .ok (t, id) ∧ t.offset = some 0 ∧ t.InRange) ∨ ∃ x, r = .error (.invalidCursor x)

/-- The first `try` is reached and ends with `r`. -/
def Parses [PyChar] (cursor : String) (r : Except PyException Json) : Prop :=
  trim PyChar.space cursor.toList ≠ [] ∧ L.parsePayload (trim PyChar.space cursor.toList) = r

/-- The timestamp has no UTC time. -/
def Overflows (iso : String) : Prop :=
  ∃ clock offset, L.fromisoformat iso = .ok ⟨clock, some offset⟩ ∧
    ¬ (DateTime.utc ⟨clock, some offset⟩).InRange

variable {L}

lemma parsePayload_kind (h : L.parsePayload s = .error e) :
    e.kind = .valueError ∨ e.kind = .recursionError := by
  unfold parsePayload at h
  cases hraw : L.urlsafeB64decode (Base64.padded s) with
  | error =>
    rw [hraw] at h
    cases h
    exact .inl rfl
  | ok raw =>
    rw [hraw] at h
    cases htext : L.decodeUtf8 raw with
    | error =>
      simp only [Except.mapError, bind, Except.bind, htext] at h
      cases h
      exact .inl rfl
    | ok text =>
      simp only [Except.mapError, bind, Except.bind, htext] at h
      exact L.loads_raises text e h

lemma handled_str (iso : String) (hid : rawId ≠ .null) :
    Handled (L.decodeFields (.str iso) rawId) ↔ ¬ L.Overflows iso := by
  have hfields : L.decodeFields (.str iso) rawId =
      (catching [.valueError, .typeError] "Invalid ISO-8601 timestamp in cursor: "
        (L.parseTimestamp iso)).bind fun parsed => .ok (parsed, rawId) := by
    cases rawId with
    | null => exact absurd rfl hid
    | _ => rfl
  rw [hfields, parseTimestamp]
  cases hiso : L.fromisoformat iso with
  | error text =>
    refine iff_of_true (.inr ⟨_, rfl⟩) ?_
    rintro ⟨clock, offset, hok, -⟩
    rw [hiso] at hok
    cases hok
  | ok t =>
    obtain ⟨clock, _ | offset⟩ := t
    · refine iff_of_true (.inl ⟨_, _, rfl, rfl, (L.fromisoformat_range iso _ hiso).1⟩) ?_
      rintro ⟨clock', offset, hok, -⟩
      rw [hiso] at hok
      cases hok
    · have hover : L.Overflows iso ↔ ¬ (DateTime.utc ⟨clock, some offset⟩).InRange := by
        simp [Overflows, hiso]
      rw [hover, not_not]
      by_cases hrange : (DateTime.utc ⟨clock, some offset⟩).InRange
      · refine iff_of_true (.inl ⟨_, rawId, ?_, rfl, hrange⟩) hrange
        simp [Except.mapError, bind, Except.bind, hrange, catching]
      · refine iff_of_false ?_ hrange
        rintro (⟨t, id, h, -⟩ | ⟨x, h⟩)
        all_goals simp [Except.mapError, bind, Except.bind, hrange, catching] at h

/-- **Every text is decoded to a UTC time and an id, or refused**, exactly if the JSON decoder does
not give up and the timestamp does not overflow. -/
theorem decode_handled_iff [PyChar] (L : CursorLib) (cursor : String) :
    Handled (L.decodeCursor cursor) ↔ (∀ text, ¬ L.Parses cursor (.error ⟨.recursionError, text⟩)) ∧
      ∀ iso rawId, L.Parses cursor (.ok (.list [.str iso, rawId])) → rawId ≠ .null →
        ¬ L.Overflows iso := by
  by_cases hclean : trim PyChar.space cursor.toList = []
  · refine iff_of_true (.inr ?_) ⟨fun _ h => h.1 hclean, fun _ _ h => absurd hclean h.1⟩
    unfold decodeCursor
    split
    · exact ⟨_, rfl⟩
    · rw [hclean]
      exact ⟨_, rfl⟩
  have hne : cursor.toList ≠ [] := by
    intro h
    rw [h] at hclean
    exact hclean rfl
  rw [decodeCursor, if_neg (by simpa using hne)]
  rw [if_neg (by simpa using hclean)]
  cases hparse : L.parsePayload (trim PyChar.space cursor.toList) with
  | error e =>
    obtain ⟨kind, text⟩ := e
    have hok : ∀ payload, ¬ L.Parses cursor (.ok payload) := by
      rintro payload ⟨-, h⟩
      rw [hparse] at h
      cases h
    rcases parsePayload_kind hparse with hkind | hkind
    · cases hkind
      refine iff_of_true (.inr ⟨_, rfl⟩) ⟨?_, fun _ _ h => absurd h (hok _)⟩
      rintro text' ⟨-, h⟩
      rw [hparse] at h
      cases h
    · cases hkind
      refine iff_of_false ?_ fun h => h.1 text ⟨hclean, hparse⟩
      rintro (⟨t, id, h, -⟩ | ⟨x, h⟩) <;> cases h
  | ok payload =>
    have herr : ∀ e, ¬ L.Parses cursor (.error e) := by
      rintro e ⟨-, h⟩
      rw [hparse] at h
      cases h
    have hpayload : ∀ p, L.Parses cursor (.ok p) ↔ payload = p := by
      simp [Parses, hclean, hparse]
    simp only [herr, not_false_eq_true, implies_true, true_and, hpayload, catching, bind,
      Except.bind]
    split
    · rename_i isoTimestamp rawId
      by_cases hid : rawId = .null
      · subst hid
        refine iff_of_true (.inr ⟨_, rfl⟩) ?_
        rintro iso rawId ⟨⟩ h
        exact absurd rfl h
      cases isoTimestamp with
      | str iso =>
        rw [handled_str iso hid]
        constructor
        · rintro h _ _ ⟨⟩ -
          exact h
        · exact fun h => h iso rawId rfl hid
      | _ =>
        refine iff_of_true (.inr ?_) nofun
        cases rawId <;> exact ⟨_, rfl⟩
    · rename_i hshape
      exact iff_of_true (.inr ⟨_, rfl⟩) fun iso rawId h => absurd h (hshape _ _)

/-- Base64 and ASCII texts, with a decoder for one JSON text and one timestamp. -/
def oneText : CursorLib where
  urlsafeB64decode s := (Base64.decode s).elim (.error "Incorrect padding") .ok
  decodeUtf8 bytes := .ok (String.ofList (bytes.map fun b => Char.ofNat b.toNat))
  loads s :=
    if s = "[\"0001-01-01T00:00:00+00:01\",1]" then
      .ok (.list [.str "0001-01-01T00:00:00+00:01", .int 1])
    else .error ⟨.valueError, "Expecting value"⟩
  fromisoformat s :=
    if s = "0001-01-01T00:00:00+00:01" then .ok ⟨0, some (60 * 10 ^ 6)⟩
    else .error "Invalid isoformat string"
  loads_raises s e h := by
    split at h <;> cases h
    exact .inl rfl
  fromisoformat_range s t h := by
    split at h <;> cases h
    decide

/-- The year 1, one minute ahead of UTC. -/
theorem overflow_escapes :
    (@decodeCursor oneText asciiChar "WyIwMDAxLTAxLTAxVDAwOjAwOjAwKzAwOjAxIiwxXQ").map (·.1) =
      .error (.escaped ⟨.overflowError, "date value out of range"⟩) := by
  decide +kernel

end CursorLib

end CleanArch
