import CleanArch.Codec.Digits
import CleanArch.Identifiers.Uuidv7
import CleanArch.Text.Chars

/-!
# Sortable identifiers

`generate_ulid` and `extract_timestamp_from_ulid` (`app/core/identifiers.py`). A ULID is a 128-bit
number in 26 digits of base 32 over Crockford's alphabet (`crockford`): 48 bits of timestamp and 80
of entropy. A fresh entropy has 75 bits, so that 2^79 increments fit (`Room`).
-/

namespace CleanArch

open Codec List Nat

/-! ## Crockford's Base32 -/

/-- `CROCKFORD_BASE32_ALPHABET`. -/
def crockfordBase32Alphabet : List Char := "0123456789ABCDEFGHJKMNPQRSTVWXYZ".toList

def symbol (d : Nat) : Char := crockfordBase32Alphabet.getD d '0'

/-- `_CROCKFORD_DECODE_MAP`. -/
def crockfordDecodeMap (c : Char) : Option Nat := crockfordBase32Alphabet.idxOf? c

/-- The encoding loop, from the right: `alphabet[value & 0x1F]`, then `value >>= 5`. -/
def crockford : Nat → Nat → List Char
  | 0, _ => []
  | n + 1, v => crockford n (v >>> 5) ++ [symbol (v &&& 0x1F)]

/-- The decoding loop. -/
def decodeTimestamp : Nat → List Char → Except ValueError Nat
  | timestampMs, [] => .ok timestampMs
  | timestampMs, c :: cs =>
    match crockfordDecodeMap c with
    | none => .error ⟨"Invalid character '" ++ String.singleton c ++ "' in ULID."⟩
    | some d => decodeTimestamp (timestampMs <<< 5 ||| d) cs

lemma crockford_eq (n v : Nat) : crockford n v = (Codec.digits 32 n v).map symbol := by
  induction n generalizing v with
  | zero => rfl
  | succ n ih =>
    have hand : v &&& 0x1F = v % 32 := and_two_pow_sub_one_eq_mod v 5
    rw [crockford, Codec.digits, ih, hand, shiftRight_eq_div_pow, map_append]
    rfl

lemma symbol_mem : symbol d ∈ crockfordBase32Alphabet := by
  rw [symbol, getD_eq_getElem?_getD]
  rcases h : crockfordBase32Alphabet[d]? with _ | c
  · decide
  · exact mem_of_getElem? h

lemma mem_of_mem_crockford (hc : c ∈ crockford n v) : c ∈ crockfordBase32Alphabet := by
  rw [crockford_eq] at hc
  obtain ⟨d, -, rfl⟩ := mem_map.mp hc
  exact symbol_mem

lemma symbol_lt (i j : Nat) (hij : i < j) (hj : j < 32) : symbol i < symbol j := by
  have hall : ∀ j : Fin 32, ∀ i < j, symbol i < symbol j := by decide
  exact hall ⟨j, hj⟩ ⟨i, hij.trans hj⟩ hij

lemma crockford_lt (h : v % 32 ^ n < w % 32 ^ n) : crockford n v < crockford n w := by
  rw [crockford_eq, crockford_eq]
  exact map_digits_lt symbol_lt (by decide) h

lemma decodeMap_symbol (hd : d < 32) : crockfordDecodeMap (symbol d) = some d := by
  have hall : ∀ d : Fin 32, crockfordDecodeMap (symbol d) = some d.val := by decide
  exact hall ⟨d, hd⟩

lemma decodeTimestamp_map {ds : List Nat} (h : ∀ d ∈ ds, d < 32) (ts : Nat) :
    decodeTimestamp ts (ds.map symbol) = .ok (ds.foldl (fun v d => v * 32 + d) ts) := by
  induction ds generalizing ts with
  | nil => rfl
  | cons d ds ih =>
    have hd : d < 2 ^ 5 := h d mem_cons_self
    simp only [map_cons, decodeTimestamp, decodeMap_symbol hd, foldl_cons]
    rw [← shiftLeft_add_eq_or_of_lt hd, shiftLeft_eq]
    exact ih (fun e he => h e (mem_cons_of_mem d he)) _

lemma decode_crockford (n v : Nat) : decodeTimestamp 0 (crockford n v) = .ok (v % 32 ^ n) := by
  rw [crockford_eq, decodeTimestamp_map fun d hd => lt_of_mem_digits (by decide) hd]
  exact congrArg Except.ok (value_digits n v)

lemma take_crockford (v : Nat) : (crockford 26 v).take 10 = crockford 10 (v >>> 80) := by
  have hshift : v >>> 80 = v / 32 ^ 16 := shiftRight_eq_div_pow v 80
  rw [crockford_eq, crockford_eq, ← map_take, take_digits (b := 32) 10 16 v, hshift]

/-- The timestamp of a notation. -/
lemma decode_take_crockford {v : Nat} (hv : v < 2 ^ 130) :
    decodeTimestamp 0 ((crockford 26 v).take 10) = .ok (v >>> 80) := by
  rw [take_crockford, decode_crockford]
  refine congrArg Except.ok (mod_eq_of_lt ?_)
  omega

lemma crockford_injective {n v w : Nat} (hv : v < 32 ^ n) (hw : w < 32 ^ n)
    (h : crockford n v = crockford n w) : v = w := by
  have hdecode := decode_crockford n v
  rw [h, decode_crockford, mod_eq_of_lt hv, mod_eq_of_lt hw] at hdecode
  exact (Except.ok.inj hdecode).symm

lemma decodeTimestamp_error {cs : List Char} (hc : c ∈ cs) (h : c ∉ crockfordBase32Alphabet)
    (ts : Nat) : ∃ e, decodeTimestamp ts cs = .error e := by
  induction cs generalizing ts with
  | nil => cases hc
  | cons c' cs ih =>
    unfold decodeTimestamp
    split
    · exact ⟨_, rfl⟩
    · next d hd =>
      rcases mem_cons.mp hc with rfl | hc
      · exact absurd (List.isSome_idxOf?.mp (Option.isSome_of_eq_some hd)) h
      · exact ih hc _

/-- Every string over the alphabet is a notation. -/
lemma exists_eq_crockford (h : ∀ c ∈ cs, c ∈ crockfordBase32Alphabet) :
    ∃ v < 32 ^ cs.length, cs = crockford cs.length v := by
  have hsymbols : ∃ ds : List Nat, (∀ d ∈ ds, d < 32) ∧ cs = ds.map symbol := by
    induction cs with
    | nil => exact ⟨[], by simp, rfl⟩
    | cons c cs ih =>
      obtain ⟨ds, hds, rfl⟩ := ih fun e he => h e (mem_cons_of_mem c he)
      have hall : crockfordBase32Alphabet.all fun c => ∃ d : Fin 32, c = symbol d := by decide
      obtain ⟨⟨d, hd⟩, rfl⟩ := of_decide_eq_true (all_eq_true.mp hall c (h c mem_cons_self))
      exact ⟨d :: ds, forall_mem_cons.mpr ⟨hd, hds⟩, rfl⟩
  obtain ⟨ds, hds, rfl⟩ := hsymbols
  have hvalue := value_digits (b := 32) ds.length (value 32 ds)
  rw [digits_value hds] at hvalue
  refine ⟨value 32 ds, ?_, ?_⟩
  · rw [length_map, hvalue]
    exact Nat.mod_lt _ (Nat.pow_pos (by decide))
  · rw [length_map, crockford_eq, digits_value hds]

/-! ## Generation -/

/-- `_last_ulid_timestamp_ms` and `_last_ulid_entropy`. -/
structure UlidState where
  lastTimestampMs : Nat := 0
  lastEntropy : Nat := 0

/-- What a call reads: `int(time.time() * 1000)` and `secrets.randbits(75)`. -/
structure UlidDraw where
  nowMs : Nat
  entropy : Fin (2 ^ 75)

namespace UlidState

/-- The part under `_state_lock`. -/
def advance (s : UlidState) (d : UlidDraw) : UlidState :=
  let nowMs := d.nowMs &&& 0xFFFFFFFFFFFF
  if nowMs > s.lastTimestampMs then ⟨nowMs, d.entropy⟩
  else { s with lastEntropy := (s.lastEntropy + 1) &&& 0xFFFFFFFFFFFFFFFFFFFF }

/-- The 128-bit value: `now_ms` is the last timestamp on both branches. -/
def ulidInt (s : UlidState) : Nat := s.lastTimestampMs <<< 80 ||| s.lastEntropy

def generateUlid (s : UlidState) (d : UlidDraw) : List Char × UlidState :=
  (crockford 26 (s.advance d).ulidInt, s.advance d)

/-- The strings of successive calls. -/
def ulids : UlidState → List UlidDraw → List (List Char)
  | _, [] => []
  | s, d :: ds => (s.generateUlid d).1 :: ulids (s.generateUlid d).2 ds

/-- The largest reading so far, at each call. -/
def largest : Nat → List UlidDraw → List Nat
  | _, [] => []
  | m, d :: ds => max m d.nowMs :: largest (max m d.nowMs) ds

/-- Room for `n` more calls at a clock that stands still. -/
structure Room (s : UlidState) (n : Nat) : Prop where
  timestamp : s.lastTimestampMs < 2 ^ 48
  entropy : s.lastEntropy + n < 2 ^ 80
  calls : n ≤ 2 ^ 79

variable {s : UlidState} {d : UlidDraw} {n : Nat}

lemma ulidInt_eq (h : Room s n) : s.ulidInt = s.lastTimestampMs * 2 ^ 80 + s.lastEntropy := by
  have hlt : s.lastEntropy < 2 ^ 80 := by have := h.entropy; omega
  rw [ulidInt, ← shiftLeft_add_eq_or_of_lt hlt, shiftLeft_eq]

/-- One call: the timestamp is the largest reading, and the value grows. -/
lemma Room.step (h : Room s (n + 1)) (hd : d.nowMs < 2 ^ 48) :
    Room (s.advance d) n ∧ (s.advance d).lastTimestampMs = max s.lastTimestampMs d.nowMs ∧
      s.ulidInt < (s.advance d).ulidInt := by
  obtain ⟨htimestamp, hentropy, hcalls⟩ := h
  have hmask : d.nowMs &&& 0xFFFFFFFFFFFF = d.nowMs :=
    (and_two_pow_sub_one_eq_mod _ 48).trans (mod_eq_of_lt hd)
  have hbits : s.lastEntropy + 1 &&& 0xFFFFFFFFFFFFFFFFFFFF = s.lastEntropy + 1 :=
    (and_two_pow_sub_one_eq_mod _ 80).trans (mod_eq_of_lt (by omega))
  have hroom : Room (s.advance d) n ∧
      (s.advance d).lastTimestampMs = max s.lastTimestampMs d.nowMs ∧
      (s.lastTimestampMs < (s.advance d).lastTimestampMs ∨
        (s.advance d).lastEntropy = s.lastEntropy + 1) := by
    have hfresh := d.entropy.2
    simp only [advance, hmask, hbits]
    split
    · next hnow =>
      exact ⟨⟨hd, by dsimp only; omega, by omega⟩, (max_eq_right hnow.le).symm, .inl hnow⟩
    · next hnow =>
      exact ⟨⟨htimestamp, by dsimp only; omega, by omega⟩,
        (max_eq_left (not_lt.mp hnow)).symm, .inr rfl⟩
  obtain ⟨hnext, hmax, hgrows⟩ := hroom
  refine ⟨hnext, hmax, ?_⟩
  have hle : s.lastTimestampMs ≤ (s.advance d).lastTimestampMs := hmax ▸ le_max_left _ _
  rw [ulidInt_eq hnext, ulidInt_eq (⟨htimestamp, hentropy, hcalls⟩ : Room s (n + 1))]
  omega

lemma Room.ulidInt_lt (h : Room s n) : s.ulidInt < 2 ^ 128 := by
  have htimestamp := h.timestamp
  have hentropy := h.entropy
  rw [ulidInt_eq h]
  omega

lemma isChain_ulids (h : Room s ds.length) (hds : ∀ d ∈ ds, d.nowMs < 2 ^ 48) :
    (crockford 26 s.ulidInt :: ulids s ds).IsChain (· < ·) := by
  induction ds generalizing s with
  | nil => exact .singleton _
  | cons d ds ih =>
    obtain ⟨hd, hds⟩ := forall_mem_cons.mp hds
    obtain ⟨hnext, -, hlt⟩ := h.step hd
    have hs := h.ulidInt_lt
    have hs' := hnext.ulidInt_lt
    exact .cons_cons (crockford_lt (by omega)) (ih hnext hds)

lemma decode_ulids (h : Room s ds.length) (hds : ∀ d ∈ ds, d.nowMs < 2 ^ 48) :
    (ulids s ds).map (fun u => decodeTimestamp 0 (u.take 10)) =
      (largest s.lastTimestampMs ds).map .ok := by
  induction ds generalizing s with
  | nil => rfl
  | cons d ds ih =>
    obtain ⟨hd, hds⟩ := forall_mem_cons.mp hds
    obtain ⟨hnext, hmax, -⟩ := h.step hd
    have hlt := hnext.ulidInt_lt
    have hentropy := hnext.entropy
    have htop : (s.advance d).ulidInt >>> 80 = max s.lastTimestampMs d.nowMs := by
      rw [ulidInt_eq hnext, shiftRight_eq_div_pow, ← hmax]
      omega
    simp only [ulids, generateUlid, largest, map_cons]
    rw [ih hnext hds, hmax, decode_take_crockford (hlt.trans (by decide)), htop]

lemma mem_ulids (hu : u ∈ ulids s ds) : ∃ v, u = crockford 26 v := by
  induction ds generalizing s with
  | nil => cases hu
  | cons d ds ih =>
    rcases mem_cons.mp hu with hu | hu
    · exact ⟨_, hu⟩
    · exact ih hu

end UlidState

open UlidState in
/-- **Sortable identifiers.** At most 2^79 calls, at any readings below 2^48 ms: the strings are 26
characters of the alphabet, increase, and begin with the largest reading so far. -/
theorem ulid_ordered (draws : List UlidDraw) (hlength : draws.length ≤ 2 ^ 79)
    (hclock : ∀ d ∈ draws, d.nowMs < 2 ^ 48) :
    (∀ u ∈ ulids {} draws, u.length = 26 ∧ ∀ c ∈ u, c ∈ crockfordBase32Alphabet) ∧
    (ulids {} draws).Pairwise (· < ·) ∧
    (ulids {} draws).map (fun u => decodeTimestamp 0 (u.take 10)) = (largest 0 draws).map .ok := by
  have hroom : Room {} draws.length := ⟨by decide, by dsimp only; omega, hlength⟩
  refine ⟨fun u hu => ?_, ?_, decode_ulids hroom hclock⟩
  · obtain ⟨v, hv⟩ := mem_ulids hu
    rw [hv]
    exact ⟨by rw [crockford_eq, length_map, Codec.length_digits], fun c => mem_of_mem_crockford⟩
  · exact (isChain_iff_pairwise.mp (isChain_ulids hroom hclock)).of_cons

/-- Two calls within one millisecond, then one at an earlier reading. -/
theorem ulid_ordered_clockSteppedBack :
    (UlidState.ulids {} [⟨7, 5⟩, ⟨7, 0⟩, ⟨3, 0⟩]).Pairwise (· < ·) :=
  (ulid_ordered [⟨7, 5⟩, ⟨7, 0⟩, ⟨3, 0⟩] (by decide) (by decide)).2.1

/-! ## Extraction -/

section
variable [PyChar] {s : List Char}

def extractTimestampFromUlid (s : List Char) : Except ValueError Int :=
  if s.length ≠ 26 then
    .error ⟨"Invalid ULID length: expected 26 characters, got " ++ toString s.length ++ "."⟩
  else
    let cleanUlid := s.flatMap PyChar.upper
    decodeTimestamp 0 (cleanUlid.take 10) >>= millisToDatetime

lemma flatMap_upper (h : ∀ c ∈ s, c.toUpper ∈ crockfordBase32Alphabet) :
    s.flatMap PyChar.upper = s.map Char.toUpper := by
  have hascii : crockfordBase32Alphabet.all (·.toNat < 128) := by decide
  rw [map_eq_flatMap]
  refine flatMap_congr fun c hc => ?_
  exact PyChar.upper_ascii c (toNat_lt_of_toUpper
    (of_decide_eq_true (all_eq_true.mp hascii _ (h c hc))))

/-- **Validation.** A string of another length, or with another character among the first ten of its
upper case, is rejected. A string that begins with the milliseconds `ms`, before the year 2242, is
taken for the notation of a 128-bit value only if it is one, ignoring the case of ASCII letters,
exactly if all its characters are in the alphabet. -/
theorem extract_sound_iff (s : List Char) :
    (s.length ≠ 26 ∨ (∃ c ∈ (s.flatMap PyChar.upper).take 10, c ∉ crockfordBase32Alphabet) →
      ∃ e, extractTimestampFromUlid s = .error e) ∧
    ∀ ms < 8589934592000, s.length = 26 → (s.flatMap PyChar.upper).take 10 = crockford 10 ms →
      ((∀ t, extractTimestampFromUlid s = .ok t → ∃ v < 2 ^ 128,
          s.map Char.toUpper = crockford 26 v ∧ t = (v >>> 80 : Nat) * 1000) ↔
        ∀ c ∈ s, c.toUpper ∈ crockfordBase32Alphabet) := by
  refine ⟨fun hbad => ?_, fun ms hms hlength hfirst => ?_⟩
  · unfold extractTimestampFromUlid
    split
    · exact ⟨_, rfl⟩
    · next hlength =>
      obtain ⟨c, hc, hout⟩ := hbad.resolve_left hlength
      obtain ⟨e, he⟩ := decodeTimestamp_error hc hout 0
      exact ⟨e, by simp only [he]; rfl⟩
  · have hextract : extractTimestampFromUlid s = .ok (ms * 1000) := by
      simp only [extractTimestampFromUlid, hlength, ne_eq, not_true_eq_false, if_false, hfirst,
        decode_crockford]
      rw [mod_eq_of_lt (hms.trans (by norm_num))]
      exact millisToDatetime_of_lt hms
    constructor
    · intro hsound c hc
      obtain ⟨v, -, hdigits, -⟩ := hsound _ hextract
      exact mem_of_mem_crockford (hdigits ▸ mem_map_of_mem hc)
    · intro halphabet t ht
      obtain ⟨v, hv, hdigits⟩ := exists_eq_crockford (forall_mem_map.mpr halphabet)
      rw [length_map, hlength] at hv hdigits
      rw [flatMap_upper halphabet, hdigits, take_crockford] at hfirst
      have hvalue : v >>> 80 = ms := by
        refine crockford_injective ?_ (hms.trans (by norm_num)) hfirst
        omega
      refine ⟨v, by omega, hdigits, ?_⟩
      rw [hvalue]
      exact Except.ok.inj (ht.symm.trans hextract)

end

/-- Sixteen characters outside the alphabet pass unseen. -/
theorem tail_unchecked :
    letI := asciiChar
    let s := "0000000001!!!!!!!!!!!!!!!!".toList
    extractTimestampFromUlid s = .ok 1000 ∧ ∀ n v, s.map Char.toUpper ≠ crockford n v := by
  refine ⟨@millisToDatetime_of_lt 1 (by decide), fun n v h => ?_⟩
  have hmem : '!' ∈ crockford n v := h ▸ by decide
  exact absurd (mem_of_mem_crockford hmem) (by decide)

end CleanArch
