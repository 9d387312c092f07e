import CleanArch.Dsa.ProbeTermination
import CleanArch.Steps.Along

/-!
# The capacity of the hash map

An insertion doubles the capacity when two thirds of it are used. The test counts the entries of
deleted keys as well, and the resize doubles the table whatever is left of it.
-/

namespace CleanArch

open Loops

namespace CompactHashMap

variable {K V : Type}

/-- The number of keys. -/
def live (m : CompactHashMap K V) : Nat := m.active.length

/-- A map and the most keys that it has had. -/
structure Growth (K V : Type) where
  map : CompactHashMap K V
  peak : Nat := 0

variable [BEq K] (hash : K → Int) (fuel : Nat)

/-- The call puts a new key into a full table. -/
def Doubles (m : CompactHashMap K V) : MapOp K V → Prop
  | .setitem key _ => (∀ e ∈ m.entries, ¬ Matches key (hash key) e) ∧ m.isFull = true
  | _ => False

namespace Growth

def step (s : Growth K V) (op : MapOp K V) : Growth K V :=
  match exec (call hash fuel op) s.map with
  | some (_, m) => ⟨m, max s.peak m.live⟩
  | none => s

/-- The capacity follows the number of keys. -/
def Bounded (s : Growth K V) : Prop := s.map.capacity ≤ max 8 (4 * (s.peak + 1))

/-- A call that doubles the table finds at most `(4 * p + 3) / 3` entries, dead ones included, with
`p` the most keys so far and after the call. -/
def Fits (s : Growth K V) (op : MapOp K V) : Prop :=
  Doubles hash s.map op →
    3 * (s.map.entries.length + 1) ≤ 4 * max s.peak (s.map.live + 1) + 6

instance (s : Growth K V) : Decidable s.Bounded := inferInstanceAs (Decidable (_ ≤ _))

end Growth

variable {hash fuel} {m m' : CompactHashMap K V} {op : MapOp K V}
  {r : Except (MapError K) (MapOut K V)}

/-! ## One call -/

lemma Sound.call_capacity (h : m.Sound) (hexec : exec (call hash fuel op) m = some (r, m')) :
    Doubles hash m op ∧ m'.capacity = m.capacity * 2 ∧ m'.live = m.live + 1 ∨
      ¬ Doubles hash m op ∧ (m'.capacity = m.capacity ∨ m'.capacity = 8) := by
  cases op with
  | setitem =>
    obtain ⟨_, hset, -⟩ := exec_map_some hexec
    cases (h.setitem_exec hset).2 with
    | updated p hentry hmatch =>
      exact .inr ⟨fun hnew => hnew.1 _ (List.mem_of_getElem? hentry) hmatch, .inl rfl⟩
    | inserted hnone htable hload hactive hmem hsize hopen hcap =>
      by_cases hfull : m.isFull = true
      · rw [if_pos hfull] at hcap
        refine .inl ⟨⟨hnone, hfull⟩, hcap, ?_⟩
        rw [live, live, ← hactive]
        simp [active]
      · rw [if_neg hfull] at hcap
        exact .inr ⟨fun hnew => hfull hnew.2, .inl hcap⟩
  | _ =>
    refine .inr ⟨not_false, ?_⟩
    rcases h.call_cases hexec with ⟨key, value, hop, -⟩ | ⟨key, b, hpost⟩ | rfl | rfl | ⟨p, rfl⟩
    · cases hop
    · cases hpost with
      | removed | absent => exact .inl rfl
    · exact .inr rfl
    all_goals exact .inl rfl

/-- The map of a history: its capacity is a multiple of the first one. -/
structure Growth.Grown (hash : K → Int) (s : Growth K V) : Prop where
  sound : s.map.Sound
  hashed : Hashed hash s.map
  eight : ∃ c, 0 < c ∧ s.map.capacity = 8 * c

variable {s : Growth K V}

lemma Growth.step_some (hexec : exec (call hash fuel op) s.map = some (r, m')) :
    s.step hash fuel op = ⟨m', max s.peak m'.live⟩ := by
  rw [Growth.step, hexec]

lemma Growth.Grown.step (h : s.Grown hash) (hexec : exec (call hash fuel op) s.map = some (r, m')) :
    (s.step hash fuel op).Grown hash := by
  rw [step_some hexec]
  obtain ⟨c, hc, hcap⟩ := h.eight
  have hchange := h.sound.call_change hexec
  refine ⟨hchange.sound h.sound, hchange.hashed h.hashed, ?_⟩
  rcases h.sound.call_capacity hexec with ⟨-, heq, -⟩ | ⟨-, heq | heq⟩
  · exact ⟨c * 2, by omega, by dsimp only; omega⟩
  · exact ⟨c, hc, heq.trans hcap⟩
  · exact ⟨1, Nat.one_pos, heq⟩

/-- **One call**: the bound is kept exactly by a call that fits. -/
lemma Growth.Grown.bounded_step_iff (h : s.Grown hash) (hs : s.Bounded)
    (hexec : exec (call hash fuel op) s.map = some (r, m')) :
    (s.step hash fuel op).Bounded ↔ s.Fits hash op := by
  obtain ⟨c, hc, hcap⟩ := h.eight
  have hload := h.sound.load
  rw [Fits, step_some hexec]
  unfold Bounded at hs ⊢
  dsimp only
  rcases h.sound.call_capacity hexec with ⟨hnew, heq, hlive⟩ | ⟨hnot, heq⟩
  · -- the table was full, and not more than full
    have hfull : s.map.capacity * 2 ≤ (s.map.entries.length + 1) * 3 := by
      cases op with
      | setitem => simpa [isFull] using hnew.2
      | _ => exact hnew.elim
    rw [forall_prop_of_true hnew, heq, hlive]
    omega
  · refine iff_of_true ?_ fun hnew => absurd hnew hnot
    rcases heq with heq | heq
    all_goals omega

/-! ## Histories -/

omit [BEq K] in
lemma init_default (hfuel : 0 < fuel) :
    init fuel initialCapacityDefault = some (cleared : CompactHashMap K V) := by
  obtain ⟨n, rfl⟩ := Nat.exists_eq_succ_of_ne_zero hfuel.ne'
  rfl

omit [BEq K] in
lemma grown_cleared : (⟨cleared, 0⟩ : Growth K V).Grown hash :=
  ⟨sound_cleared, fun _ he => absurd he List.not_mem_nil, 1, Nat.one_pos, rfl⟩

lemma Growth.Grown.exists_run (hhash : ∀ key, 0 ≤ hash key) (h : s.Grown hash)
    (ops : List (MapOp K V)) : ∃ bound, ∀ fuel, bound ≤ fuel →
      (∃ outs, runOps hash fuel ops s.map =
        some (outs, (ops.foldl (Growth.step hash fuel) s).map)) ∧
      (s.Bounded → (Steps.Always (Growth.step hash fuel) Growth.Bounded s ops ↔
        Steps.Along (Growth.step hash fuel) (Growth.Fits hash) s ops)) := by
  induction ops generalizing s with
  | nil =>
    refine ⟨0, fun fuel _ => ⟨⟨[], rfl⟩, fun hs => ?_⟩⟩
    exact ⟨fun _ => trivial, fun _ => Steps.always_nil.mpr hs⟩
  | cons op ops ih =>
    obtain ⟨n, ⟨r, m1⟩, hexec⟩ := (h.sound.exists_exec_call_iff).mpr
      (h.sound.callMeets_of_nonneg h.hashed hhash op)
    obtain ⟨bound, hrest⟩ := ih (h.step hexec)
    refine ⟨max n bound, fun fuel hfuel => ?_⟩
    have hexec' := (mono_call).exec_of_le (by omega : n ≤ fuel) hexec
    have hstep := step_some hexec'
    rw [step_some hexec, ← hstep] at hrest
    obtain ⟨⟨outs, hrun⟩, hiff⟩ := hrest fuel (by omega)
    constructor
    · refine ⟨r :: outs, ?_⟩
      rw [runOps, hexec', List.foldl_cons, ← show (s.step hash fuel op).map = m1 from
        congrArg Growth.map hstep]
      simp only [Option.bind_eq_bind, Option.bind_some, hrun]
      rfl
    · exact fun hs => Steps.always_iff_along_cons hs (h.bounded_step_iff hs hexec') hiff

/-- **The capacity follows the number of keys exactly in the histories whose growing calls fit.**
With hashes that are not negative every call of a history returns. In every state of the history
the capacity is at most `max 8 (4 * (p + 1))`, with `p` the most keys so far, exactly if each call
that puts a new key into a full table fits. -/
theorem capacity_bounded_iff (hhash : ∀ key, 0 ≤ hash key) (ops : List (MapOp K V)) :
    ∃ bound, ∀ fuel, bound ≤ fuel →
      ∃ (m : CompactHashMap K V) (outs : List (Except (MapError K) (MapOut K V))),
        init fuel initialCapacityDefault = some m ∧
        runOps hash fuel ops m = some (outs, (ops.foldl (Growth.step hash fuel) ⟨m, 0⟩).map) ∧
        (Steps.Always (Growth.step hash fuel) Growth.Bounded ⟨m, 0⟩ ops ↔
          Steps.Along (Growth.step hash fuel) (Growth.Fits hash) ⟨m, 0⟩ ops) := by
  have hstart : (⟨cleared, 0⟩ : Growth K V).Grown hash := grown_cleared
  obtain ⟨bound, hrun⟩ := hstart.exists_run hhash ops
  refine ⟨bound + 1, fun fuel hfuel => ?_⟩
  obtain ⟨⟨outs, hops⟩, hiff⟩ := hrun fuel (by omega)
  exact ⟨cleared, outs, init_default (by omega), hops, hiff (le_max_left 8 _)⟩

def churn : List (MapOp Nat Nat) :=
  (List.replicate 5 [.setitem 1 0, .delete 1]).flatten ++ [.setitem 1 0]

def numberHash (key : Nat) : Int := key

/-- The map never has more than one key, and the sixth insertion doubles its capacity. -/
theorem churn_doubles : init 20 initialCapacityDefault = some (cleared : CompactHashMap Nat Nat) ∧
      (churn.foldl (Growth.step numberHash 20) ⟨cleared, 0⟩).peak = 1 ∧
      (churn.foldl (Growth.step numberHash 20) ⟨cleared, 0⟩).map.capacity = 16 ∧
      ¬ (churn.foldl (Growth.step numberHash 20) ⟨cleared, 0⟩).Bounded := by
  decide +kernel

/-- The same history: its last call does not fit. -/
theorem capacity_bounded_iff_churn : (∀ key, 0 ≤ numberHash key) ∧ ∃ bound, ∀ fuel, bound ≤ fuel →
      ∃ (m : CompactHashMap Nat Nat) (outs : List (Except (MapError Nat) (MapOut Nat Nat))),
        init fuel initialCapacityDefault = some m ∧
        runOps numberHash fuel churn m =
          some (outs, (churn.foldl (Growth.step numberHash fuel) ⟨m, 0⟩).map) ∧
        (Steps.Always (Growth.step numberHash fuel) Growth.Bounded ⟨m, 0⟩ churn ↔
          Steps.Along (Growth.step numberHash fuel) (Growth.Fits numberHash) ⟨m, 0⟩ churn) :=
  ⟨fun key => Int.natCast_nonneg key,
    capacity_bounded_iff (fun key => Int.natCast_nonneg key) churn⟩

end CompactHashMap
end CleanArch
