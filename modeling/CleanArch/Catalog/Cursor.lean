import CleanArch.Codec.Base64
import CleanArch.Lexing.Runs
import CleanArch.Text.Chars
import Mathlib.Data.Int.Order.Basic
import Mathlib.Logic.Encodable.Basic
import Mathlib.Logic.Equiv.List

/-!
# The cursor of the catalog

`CursorCodec` (`app/core/pagination/cursor.py`): the key of a row (its `created_at` and its `id`) as
the URL-safe Base64 of a JSON list, without its padding. A `DateTime` without an offset is naive,
and taken as UTC. Of `json` and the ISO format of `datetime` (`CursorText`) it is assumed that they
read back what they write.
-/

namespace CleanArch

open Base64 Lexing String

/-- A `datetime`, in microseconds: its clock, and how far it is ahead of UTC. -/
structure DateTime where
  clock : Int
  offset : Option Int
  deriving DecidableEq

def DateTime.instant (t : DateTime) : Int := t.clock - t.offset.getD 0

/-- `replace(tzinfo=UTC)` of a naive time, `astimezone(UTC)` of an aware one. -/
def DateTime.utc (t : DateTime) : DateTime :=
  match t.offset with
  | none => { t with offset := some 0 }
  | some offset => ⟨t.clock - offset, some 0⟩

@[simp] lemma DateTime.instant_utc (t : DateTime) : t.utc.instant = t.instant := by
  obtain ⟨clock, _ | offset⟩ := t
  · rfl
  · simp [utc, instant]

inductive Json where
  | null
  | int (n : Int)
  | str (s : String)
  | list (items : List Json)
  | other (text : String)

/-- `json.dumps`, `json.loads`, `isoformat` and `fromisoformat`. -/
class CursorText where
  dumps : Json → String
  loads : String → Option Json
  isoformat : DateTime → String
  fromisoformat : String → Option DateTime
  dumps_ne : ∀ items, dumps (.list items) ≠ ""
  loads_dumps : ∀ s n, loads (dumps (.list [.str s, .int n])) = some (.list [.str s, .int n])
  fromisoformat_isoformat : ∀ t, fromisoformat (isoformat t) = some t

/-- The texts that Python writes for the cursor of row 1 at 5 µs after the start of year 1; all
other numbers and times are runs of zeros. -/
@[reducible] def rowText : CursorText where
  dumps
    | .list [.str s, .int n] =>
      if s = "0001-01-01T00:00:00.000005+00:00" ∧ n = 1 then
        "[\"0001-01-01T00:00:00.000005+00:00\",1]"
      else ofList (List.replicate (Encodable.encode n) '0' ++ '1' :: s.toList)
    | _ => "1"
  loads text :=
    if text = "[\"0001-01-01T00:00:00.000005+00:00\",1]" then
      some (.list [.str "0001-01-01T00:00:00.000005+00:00", .int 1])
    else (Encodable.decode (text.toList.takeWhile (· == '0')).length).map fun n =>
      .list [.str (ofList (text.toList.dropWhile (· == '0')).tail), .int n]
  isoformat t :=
    if t = ⟨5, some 0⟩ then "0001-01-01T00:00:00.000005+00:00"
    else ofList (List.replicate (Encodable.encode (t.clock, t.offset)) '0')
  fromisoformat s :=
    if s = "0001-01-01T00:00:00.000005+00:00" then some ⟨5, some 0⟩
    else (Encodable.decode s.toList.length).map fun (p : Int × Option Int) => ⟨p.1, p.2⟩
  dumps_ne items := by
    split
    · split
      · decide
      · rw [ne_eq, ← toList_inj, toList_ofList]
        simp
    · decide
  loads_dumps s n := by
    by_cases h : s = "0001-01-01T00:00:00.000005+00:00" ∧ n = 1
    · simp [h]
    · simp only [if_neg h]
      rw [if_neg]
      · simp
        exact Equiv.symm_apply_apply Equiv.intEquivNat n
      · -- the text does not start with a bracket
        rw [← toList_inj, toList_ofList]
        cases Encodable.encode n <;> simp [List.replicate_succ]
  fromisoformat_isoformat t := by
    split
    · next h => simp [h]
    · rw [if_neg]
      · simp only [toList_ofList, List.length_replicate, Encodable.encodek, Option.map_some]
      · -- a run of zeros has no other character
        intro h
        have hmem : '1' ∈ List.replicate (Encodable.encode (t.clock, t.offset)) '0' := by
          rw [← toList_ofList (l := List.replicate _ '0'), h]
          decide
        exact absurd (List.eq_of_mem_replicate hmem) (by decide)

structure InvalidCursorException where
  message : String
  deriving DecidableEq

/-- `s.encode("utf-8")`. -/
def utf8 (s : String) : List UInt8 := s.toByteArray.data.toList

/-- `raw.decode("utf-8")`. -/
def ofUtf8 (bytes : List UInt8) : Option String := fromUTF8? ⟨bytes.toArray⟩

@[simp] lemma ofUtf8_utf8 (s : String) : ofUtf8 (utf8 s) = some s := by
  have hbytes : (⟨(utf8 s).toArray⟩ : ByteArray) = s.toByteArray := by simp [utf8]
  rw [ofUtf8, hbytes, fromUTF8?, dif_pos s.isValidUTF8]
  rfl

lemma utf8_ne_nil (hs : s ≠ "") : utf8 s ≠ [] := by
  intro h
  have hempty := ofUtf8_utf8 s
  rw [h, ← show utf8 "" = [] from rfl, ofUtf8_utf8] at hempty
  exact hs (Option.some.inj hempty).symm

variable [PyChar] [CursorText]

def encodeCursor (createdAt : DateTime) (id : Int) : String :=
  let payload := .list [.str (CursorText.isoformat createdAt.utc), .int id]
  ofList ((encode (utf8 (CursorText.dumps payload))).rdropWhile (· == '='))

/-- The checks of `decode_cursor` on the decoded payload. -/
def decodePayload : Json → Except InvalidCursorException (DateTime × Json)
  | .list [isoTimestamp, rawId] =>
    match isoTimestamp, rawId with
    | _, .null => .error
      ⟨"Invalid cursor fields: timestamp must be string and id must not be null."⟩
    | .str iso, rawId =>
      match CursorText.fromisoformat iso with
      | none => .error ⟨"Invalid ISO-8601 timestamp in cursor"⟩
      | some parsed => .ok (parsed.utc, rawId)
    | _, _ => .error
      ⟨"Invalid cursor fields: timestamp must be string and id must not be null."⟩
  | _ => .error ⟨"Invalid cursor structure: expected composite tuple [created_at, id]."⟩

def decodeCursor (cursor : String) : Except InvalidCursorException (DateTime × Json) :=
  if cursor.toList.isEmpty then
    .error ⟨"Pagination cursor token cannot be empty or non-string."⟩
  else
    let cleanCursor := trim PyChar.space cursor.toList
    if cleanCursor.isEmpty then .error ⟨"Pagination cursor token cannot be whitespace."⟩
    else
      match ((decode (padded cleanCursor)).bind ofUtf8).bind CursorText.loads with
      | none => .error ⟨"Invalid, malformed, or tampered pagination cursor token"⟩
      | some payload => decodePayload payload

omit [CursorText] in
lemma space_digit : PyChar.space (digit n) = false := by
  have hmem : ('A' :: alphabet).all (fun c => decide (c.toNat < 128 ∧
      ¬(9 ≤ c.toNat ∧ c.toNat ≤ 13 ∨ 28 ≤ c.toNat ∧ c.toNat ≤ 32))) = true := by
    decide +kernel
  obtain ⟨hlt, hspace⟩ := of_decide_eq_true (List.all_eq_true.mp hmem _ (digit_mem))
  rw [PyChar.space_ascii _ hlt, decide_eq_false hspace]

lemma decodeCursor_encodeCursor (createdAt : DateTime) (id : Int) :
    decodeCursor (encodeCursor createdAt id) = .ok (createdAt.utc.utc, .int id) := by
  obtain ⟨body, hbody, heq⟩ := encode_eq_padded (utf8 (CursorText.dumps
    (.list [.str (CursorText.isoformat createdAt.utc), .int id])))
  have hcursor : (encodeCursor createdAt id).toList = body := by
    simp only [encodeCursor, heq, rdropWhile_padded hbody, toList_ofList]
  have hne : body ≠ [] := by
    rintro rfl
    exact encode_ne_nil (utf8_ne_nil (CursorText.dumps_ne _)) heq
  have htrim : trim PyChar.space body = body := by
    refine trim_of_forall fun c hc => ?_
    obtain ⟨n, rfl⟩ := hbody c hc
    exact space_digit
  simp only [decodeCursor, hcursor, htrim, List.isEmpty_eq_false_iff.mpr hne, ← heq,
    decode_encode, Option.bind_some, ofUtf8_utf8, CursorText.loads_dumps, decodePayload,
    CursorText.fromisoformat_isoformat, Bool.false_eq_true, if_false]

end CleanArch
