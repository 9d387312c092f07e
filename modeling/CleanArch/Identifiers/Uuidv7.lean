import CleanArch.Floats.Binary64
import CleanArch.Steps.Along

/-!
# Time-ordered UUIDs

`generate_uuidv7` and `extract_timestamp_from_uuidv7` (`app/core/identifiers.py`). A UUID is its
128-bit integer. A call draws a reading of the clock in milliseconds, ten bits for the sequence
counter and 62 for the tail (`V7Draw`); the lock makes a call one step.

- **The counter** has twelve bits. When it runs out in a millisecond, the next UUID starts again
  from 0.
- **The timestamp** goes through a double, `ms / 1000.0`, to a `datetime`, which has microseconds
  and ends with the year 9999 (`fromTimestamp`).
-/

namespace CleanArch

open Decimals Floats List Nat Steps

/-! ## Timestamps -/

structure ValueError where
  message : String
  deriving DecidableEq

/-- `datetime.fromtimestamp(x, tz=UTC)` of a double, in microseconds since the epoch: the fraction
of a second is rounded half to even. -/
def fromTimestamp (x : ℚ) : Except ValueError Int :=
  let micros := ⌊x⌋ * 10 ^ 6 + roundHalfEven (binary64 (Int.fract x * 10 ^ 6))
  if micros < 253402300800 * 10 ^ 6 then .ok micros else .error ⟨"year is out of range"⟩

/-- `datetime.fromtimestamp(ms / 1000.0, tz=UTC)`. -/
def millisToDatetime (ms : Nat) : Except ValueError Int := fromTimestamp (binary64 (ms / 1000))

lemma millisToDatetime_of_lt {ms : Nat} (h : ms < 8589934592000) :
    millisToDatetime ms = .ok (ms * 1000) := by
  have hms : (ms : ℚ) < 8589934592000 := by exact_mod_cast h
  have hnonneg : (0 : ℚ) ≤ ms / 1000 := by positivity
  have hdouble : |binary64 (ms / 1000) - ms / 1000| ≤ 2 ^ ((33 : ℤ) - 54) := by
    refine abs_binary64_sub_le ?_
    rw [abs_of_nonneg hnonneg]
    linarith
  set x := binary64 (ms / 1000 : ℚ) with hx
  have hfract : |Int.fract x * 10 ^ 6| < 2 ^ (20 : ℤ) := by
    have hlt := Int.fract_lt_one x
    rw [abs_of_nonneg (mul_nonneg (Int.fract_nonneg x) (by norm_num))]
    linarith
  have hmicros := abs_binary64_sub_le hfract
  have hround : roundHalfEven (binary64 (Int.fract x * 10 ^ 6)) = ms * 1000 - ⌊x⌋ * 10 ^ 6 := by
    refine roundHalfEven_eq_iff.mpr (.inl ?_)
    have hparts := Int.floor_add_fract x
    norm_num at hdouble hmicros ⊢
    rw [abs_le] at hdouble hmicros
    rw [abs_lt]
    constructor <;> linarith
  unfold millisToDatetime fromTimestamp
  rw [← hx]
  simp only [hround, add_sub_cancel]
  rw [if_pos]
  have : (ms : ℤ) < 8589934592000 := by exact_mod_cast h
  omega

/-! ## One call -/

/-- `_last_v7_timestamp_ms` and `_v7_sequence_counter`. -/
structure V7State where
  lastTimestampMs : Nat := 0
  sequenceCounter : Nat := 0
  deriving DecidableEq

/-- What a call reads: `int(time.time() * 1000)`, `secrets.randbits(10)` and
`secrets.randbits(62)`. -/
structure V7Draw where
  nowMs : Fin (2 ^ 48)
  seed : Fin (2 ^ 10)
  rand : Fin (2 ^ 62)

namespace V7State

/-- The part under `_state_lock`. -/
def advance (s : V7State) (d : V7Draw) : V7State :=
  if d.nowMs > s.lastTimestampMs then ⟨d.nowMs, d.seed⟩
  else { s with sequenceCounter := (s.sequenceCounter + 1) &&& 0xFFF }

/-- The rest: `now_ms` is the last timestamp on both branches. -/
def pack (s : V7State) (rand : Fin (2 ^ 62)) : Nat :=
  let ts48 := s.lastTimestampMs &&& 0xFFFFFFFFFFFF
  let verRandA := 0x7 <<< 12 ||| s.sequenceCounter &&& 0xFFF
  let varRandB := 0x2 <<< 62 ||| rand
  ts48 <<< 80 ||| verRandA <<< 64 ||| varRandB

def generateUuidv7 (s : V7State) (d : V7Draw) : Nat × V7State :=
  ((s.advance d).pack d.rand, s.advance d)

/-- The counters fit their fields. -/
structure Sound (s : V7State) : Prop where
  timestamp : s.lastTimestampMs < 2 ^ 48
  counter : s.sequenceCounter < 2 ^ 12

variable {s : V7State}

lemma Sound.advance (h : Sound s) (d : V7Draw) : Sound (s.advance d) := by
  unfold V7State.advance
  split
  · exact ⟨d.nowMs.2, d.seed.2.trans (by decide)⟩
  · exact ⟨h.timestamp, and_lt_two_pow _ (by decide)⟩

/-- The least UUID of a state. -/
def floor (s : V7State) : Nat :=
  (s.lastTimestampMs * 2 ^ 16 + (7 * 2 ^ 12 + s.sequenceCounter)) * 2 ^ 64

lemma pack_eq (h : Sound s) (rand : Fin (2 ^ 62)) : s.pack rand = s.floor + (2 ^ 63 + rand) := by
  obtain ⟨hts, hseq⟩ := h
  have hrand := rand.2
  have hor : ∀ {i b : Nat}, b < 2 ^ i → ∀ a, a <<< i ||| b = a * 2 ^ i + b := by
    intro i b hb a
    rw [← shiftLeft_add_eq_or_of_lt hb, shiftLeft_eq]
  have hts' : s.lastTimestampMs &&& 0xFFFFFFFFFFFF = s.lastTimestampMs :=
    (and_two_pow_sub_one_eq_mod _ 48).trans (mod_eq_of_lt hts)
  have hseq' : s.sequenceCounter &&& 0xFFF = s.sequenceCounter :=
    (and_two_pow_sub_one_eq_mod _ 12).trans (mod_eq_of_lt hseq)
  have hver : (7 * 2 ^ 12 + s.sequenceCounter) <<< 64 < 2 ^ 80 := by
    omega
  have hvar : 2 * 2 ^ 62 + rand.val < 2 ^ 64 := by omega
  have hhigh : s.lastTimestampMs <<< 80 ||| (7 * 2 ^ 12 + s.sequenceCounter) <<< 64 =
      (s.lastTimestampMs * 2 ^ 16 + (7 * 2 ^ 12 + s.sequenceCounter)) <<< 64 := by
    rw [hor hver, shiftLeft_eq, shiftLeft_eq]
    omega
  simp only [pack, hts', hseq', hor hseq, hor hrand]
  rw [hhigh, hor hvar, floor]
  rfl

lemma pack_bits (h : Sound s) :
    s.pack rand >>> 80 = s.lastTimestampMs ∧ s.pack rand >>> 76 &&& 0xF = 7 ∧
      s.pack rand >>> 62 &&& 3 = 2 := by
  have hts := h.timestamp
  have hseq := h.counter
  have hrand := rand.2
  have h15 := and_two_pow_sub_one_eq_mod (s.pack rand >>> 76) 4
  have h3 := and_two_pow_sub_one_eq_mod (s.pack rand >>> 62) 2
  rw [pack_eq h] at h15 h3 ⊢
  simp only [shiftRight_eq_div_pow, floor] at h15 h3 ⊢
  refine ⟨by omega, h15.trans (by omega), h3.trans (by omega)⟩

/-- The counter does not run out at the call. -/
def NoWrap (s : V7State) (d : V7Draw) : Prop :=
  d.nowMs > s.lastTimestampMs ∨ s.sequenceCounter < 4095

lemma lt_pack_iff (h : Sound s) (hx : s.floor ≤ x ∧ x < s.floor + 2 ^ 64) :
    x < (s.advance d).pack d.rand ↔ NoWrap s d := by
  have hseq := h.counter
  have hrand := d.rand.2
  rw [pack_eq (h.advance d)]
  simp only [floor, NoWrap] at hx ⊢
  unfold advance
  split
  · next hnow => exact iff_of_true (by dsimp only; omega) (.inl hnow)
  · next hnow =>
    have hmod : s.sequenceCounter + 1 &&& 0xFFF = (s.sequenceCounter + 1) % 2 ^ 12 :=
      and_two_pow_sub_one_eq_mod _ 12
    simp only [hmod, hnow, false_or]
    omega

/-! ## Histories -/

/-- The millisecond and the UUID of each call. -/
def issued : V7State → List V7Draw → List (Nat × Nat)
  | _, [] => []
  | s, d :: ds => ((s.advance d).lastTimestampMs, (s.generateUuidv7 d).1) ::
      issued (s.generateUuidv7 d).2 ds

/-- Each UUID is that of a sound state. -/
lemma exists_of_mem_issued (h : Sound s) (hp : p ∈ issued s ds) :
    ∃ s', Sound s' ∧ ∃ rand, p = (s'.lastTimestampMs, s'.pack rand) := by
  induction ds generalizing s with
  | nil => cases hp
  | cons d ds ih =>
    rcases mem_cons.mp hp with rfl | hp
    · exact ⟨s.advance d, h.advance d, d.rand, rfl⟩
    · exact ih (h.advance d) hp

lemma isChain_issued_iff (h : Sound s) (hx : s.floor ≤ x ∧ x < s.floor + 2 ^ 64)
    (ds : List V7Draw) :
    (x :: (issued s ds).map Prod.snd).IsChain (· < ·) ↔ Along advance NoWrap s ds := by
  induction ds generalizing s x with
  | nil => simp [issued, Along]
  | cons d ds ih =>
    have hrand := d.rand.2
    have hnext := pack_eq (h.advance d) d.rand
    have hiff := ih (h.advance d) (x := (s.advance d).pack d.rand) ⟨by omega, by omega⟩
    simp only [issued, map_cons, isChain_cons_cons, Along, generateUuidv7]
    rw [lt_pack_iff h hx, hiff]

end V7State

/-- `UUID.version`, of the variant of RFC 4122. -/
def uuidVersion (u : Nat) : Option Nat :=
  if u >>> 62 &&& 3 = 2 then some (u >>> 76 &&& 0xF) else none

def extractTimestampFromUuidv7 (u : Nat) : Except ValueError Int :=
  if uuidVersion u ≠ some 7 then
    .error ⟨"UUID is version " ++ (uuidVersion u).elim "None" toString ++
      ", expected version 7 for timestamp extraction."⟩
  else millisToDatetime (u >>> 80)

open V7State in
/-- **Time-ordered UUIDs.** Every UUID has version 7 and variant 10. The UUIDs of a history increase
exactly if the counter never runs out. Each of them gives its milliseconds back if these are before
the year 2242, where the seconds of `ms / 1000.0` take 33 bits. -/
theorem uuidv7_ordered_iff (draws : List V7Draw) :
    (∀ p ∈ issued {} draws, uuidVersion p.2 = some 7 ∧ p.2 >>> 62 &&& 3 = 2) ∧
    (((issued {} draws).map Prod.snd).Pairwise (· < ·) ↔ Along advance NoWrap {} draws) ∧
    ∀ p ∈ issued {} draws, p.1 < 8589934592000 →
      extractTimestampFromUuidv7 p.2 = .ok (p.1 * 1000) := by
  have hstart : Sound {} := ⟨by decide, by decide⟩
  have hbits : ∀ p ∈ issued {} draws, p.2 >>> 80 = p.1 ∧ uuidVersion p.2 = some 7 ∧
      p.2 >>> 62 &&& 3 = 2 := by
    intro p hp
    obtain ⟨s, hs, rand, rfl⟩ := exists_of_mem_issued hstart hp
    obtain ⟨hms, hversion, hvariant⟩ := pack_bits hs
    exact ⟨hms, by rw [uuidVersion, if_pos hvariant, hversion], hvariant⟩
  refine ⟨fun p hp => (hbits p hp).2, ?_, fun p hp hlt => ?_⟩
  · rw [← isChain_iff_pairwise]
    cases draws with
    | nil => simp [issued, Along]
    | cons d ds =>
      have hrand := d.rand.2
      have hfirst := pack_eq (hstart.advance d) d.rand
      have hiff := isChain_issued_iff (hstart.advance d) (x := (advance {} d).pack d.rand)
        ⟨by omega, by omega⟩ ds
      have hfree : NoWrap {} d := .inr (by decide)
      simp only [issued, map_cons, generateUuidv7, Along]
      rw [hiff, and_iff_right hfree]
  · obtain ⟨hms, hversion, -⟩ := hbits p hp
    rw [extractTimestampFromUuidv7, if_neg (not_not.mpr hversion), hms]
    exact millisToDatetime_of_lt hlt

/-! ### A clock that stands still -/

def stalled : V7Draw := ⟨0, 0, 0⟩

lemma foldl_stalled (hn : n ≤ 4095) :
    (List.replicate n stalled).foldl V7State.advance {} = ⟨0, n⟩ := by
  induction n with
  | zero => rfl
  | succ n ih =>
    have hmod : n + 1 &&& 0xFFF = n + 1 :=
      (and_two_pow_sub_one_eq_mod _ 12).trans (mod_eq_of_lt (by omega))
    rw [replicate_succ', foldl_append, ih (by omega)]
    simp [V7State.advance, stalled, hmod]

/-- After 4095 calls at one reading of the clock, the next UUID is below the last one. -/
theorem stalled_clock_wraps :
    let before := (List.replicate 4094 stalled).foldl V7State.advance {}
    let last := before.generateUuidv7 stalled
    (last.2.generateUuidv7 stalled).1 < last.1 := by
  rw [foldl_stalled (by decide)]
  decide +kernel

end CleanArch
