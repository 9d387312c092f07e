import CleanArch.Async.Rely
import CleanArch.Ledger.Money
import CleanArch.Ledger.Tables
import CleanArch.Ledger.World

/-!
# Rules for the awaits of the ledger

One rule for each kind of repository call: a read (`wp_read`), an insert (`wp_insert`), the commit
(`wp_commit`), and a random id (`wp_uuid`). Each takes the rest of the program as a continuation,
for any protocol of the machine and any post that the others' steps keep.
-/

namespace CleanArch

open Async LedgerCmd LedgerError Protocol

def LedgerError.isUnbalanced : LedgerError → Bool
  | .unbalancedJournalEntry .. => true
  | _ => false

variable {e : LedgerError}

lemma LedgerError.isUnbalanced_of_isArithmetic (h : e.isArithmetic = true) :
    e.isUnbalanced = false := by
  cases e with
  | unbalancedJournalEntry => cases h
  | _ => rfl

/-! ## What a request changes -/

lemma withFault_cases {E α σ : Type} (e : E) (before : σ) (x : Except E α × σ) :
    withFault o e before x = x ∨ withFault o e before x = (.error e, before) ∨
      withFault o e before x = (.error e, x.2) := by
  unfold withFault
  split
  · exact .inl rfl
  · exact .inr (.inl rfl)
  · exact .inr (.inr rfl)

lemma LedgerCmd.exec_redis_cases (c : RedisCmd) (o : Answer) (l : Session) (s : World) :
    exec o l s (.redis c) = (.ok (c.exec s).1, l, (c.exec s).2) ∨
      exec o l s (.redis c) = (.error .redisError, l, s) ∨
      exec o l s (.redis c) = (.error .redisError, l, (c.exec s).2) :=
  withFault_cases ..

lemma insert_db {α : Type} (a : α) : (insert rows a l d).2.2 = d := by
  unfold insert
  split
  · rfl
  · rfl

lemma DbCmd.exec_db {c : DbCmd} (hc : c ≠ .commit) (o : Answer) (l : Session) (d : Ledger) :
    (c.exec o l d).2.2 = d := by
  cases c with
  | commit => exact absurd rfl hc
  | createAccount | createJournalEntry | createOutboxEvent | createBatch => exact insert_db _
  | _ => rfl

lemma LedgerCmd.exec_eq (hc : c ≠ .commit) : (exec o l s (.db c)).2.2 = s := by
  have hs : ({ s with db := (c.exec o l s.db).2.2 } : World) = s := by rw [c.exec_db hc]
  simp only [exec]
  rcases withFault_cases databaseError (l, s)
    ((c.exec o l s.db).1, (c.exec o l s.db).2.1, { s with db := (c.exec o l s.db).2.2 })
    with h | h | h
  · rw [h, hs]
  · rw [h]
  · rw [h, hs]

lemma RedisCmd.exec_db (c : RedisCmd) (s : World) : (c.exec s).2.db = s.db := by
  cases c with
  | setNx | lockSetNx | lockRelease => simp only [RedisCmd.exec]; split <;> rfl
  | _ => rfl

lemma LedgerCmd.exec_db_eq {c : LedgerCmd} (hc : c ≠ .db .commit) (o : Answer) (l : Session)
    (s : World) : (c.exec o l s).2.2.db = s.db := by
  cases c with
  | db => rw [exec_eq fun h => hc (by rw [h])]
  | redis c =>
    rcases exec_redis_cases c o l s with h | h | h
    · rw [h]; exact c.exec_db s
    · rw [h]
    · rw [h]; exact c.exec_db s
  | proc c => cases c <;> rfl
  | processCharge =>
    simp only [exec, withFault]
    split <;> rfl

variable {l : Session}

lemma insert_error {α : Type} {a : α} (h : (insert rows a l d).1 = .error e) :
    e = .integrityError := by
  unfold insert at h
  split at h
  · cases h; rfl
  · cases h

lemma DbCmd.exec_error {c : DbCmd} (h : (c.exec o l d).1 = .error e) : e = .integrityError := by
  cases c with
  | createAccount | createJournalEntry | createOutboxEvent | createBatch => exact insert_error h
  | commit =>
    simp only [DbCmd.exec] at h
    split at h
    · cases h; rfl
    · cases h
  | _ => cases h

lemma LedgerCmd.exec_error {c : LedgerCmd} (h : (c.exec o l s).1 = .error e) :
    e.isUnbalanced = false := by
  cases c with
  | db c =>
    simp only [exec] at h
    rcases withFault_cases databaseError (l, s)
      ((c.exec o l s.db).1, (c.exec o l s.db).2.1, { s with db := (c.exec o l s.db).2.2 })
      with h' | h' | h'
    · rw [h'] at h; rw [DbCmd.exec_error h]; rfl
    · rw [h'] at h; cases h; rfl
    · rw [h'] at h; cases h; rfl
  | redis c =>
    rcases exec_redis_cases c o l s with h' | h' | h'
    · rw [h'] at h; cases h
    · rw [h'] at h; cases h; rfl
    · rw [h'] at h; cases h; rfl
  | proc => cases h
  | processCharge =>
    simp only [exec, withFault] at h
    split at h
    · cases h
    · cases h; rfl
    · cases h; rfl

/-! ## Runs while Redis works -/

lemma run_redis (c : RedisCmd) {k : c.Res → LedgerProg α} :
    redisUp.run t ((redis c).bind k) o l s =
      redisUp.run t (k (c.exec s).1) (fun n => o (n + 1)) l (c.exec s).2 := rfl

lemma exec_setNx_free (h : s.idem r = none) : (RedisCmd.setNx r doc ex).exec s =
    (true, { s with idem := Function.update s.idem r (some doc) }) := by
  simp only [RedisCmd.exec, h]

lemma exec_setNx_taken (h : s.idem r = some old) :
    (RedisCmd.setNx r doc ex).exec s = (false, s) := by
  simp only [RedisCmd.exec, h]

/-! ## Rules -/

/-- What holds when a program of the ledger ends. -/
abbrev LedgerPost (α : Type) := Except LedgerError α → Session → World → Prop

/-- Every statement of `t` but the commit keeps the protocol. -/
def DbKeeps (P : Protocol ledgerMachine) (t : Tid) : Prop :=
  ∀ c o l s, c ≠ DbCmd.commit → P.inv s → P.ok t (.db c) l s o → P.Keeps t (.db c) o l s

section Rules

variable {P : Protocol ledgerMachine} {α : Type} {Q : LedgerPost α} (hQ : P.Stable t Q)

include hQ

/-- A request that the world can refuse, and whose reply it can lose. -/
lemma wp_faulty {k : c.Res → LedgerProg α}
    {x : Answer → World → Except LedgerError c.Res × Session × World}
    (hx : ∀ o s', c.exec o l s' = withFault o e (l, s') (x o s'))
    (h : ∀ o s', P.Later t s s' → P.ok t c l s' o → P.Keeps t c o l s' ∧ Q (.error e) l s' ∧
      Q (.error e) (x o s').2.1 (x o s').2.2 ∧
      match (x o s').1 with
      | .ok a => P.wp t (k a) Q (x o s').2.1 (x o s').2.2
      | .error e => Q (.error e) (x o s').2.1 (x o s').2.2) :
    P.wp t ((Prog.call c).bind k) Q l s := by
  refine hQ.call_bind fun s' o hr hi ho => ?_
  obtain ⟨hk, hbefore, hafter, hdone⟩ := h o s' ⟨hr, hi⟩ ho
  refine ⟨hk, ?_⟩
  simp only [hx]
  rcases withFault_cases e (l, s') (x o s') with h | h | h
  · rw [h]
    revert hdone
    cases (x o s').1 with
    | ok | error => exact id
  · rw [h]; exact hbefore
  · rw [h]; exact hafter

lemma wp_read (hk : DbKeeps P t) {f : Ledger → c.Res} {k : c.Res → LedgerProg α}
    (hok : ∀ s', P.Later t s s' → P.wp t (k (f (l.view s'.db))) Q l s')
    (herr : ∀ s', P.Later t s s' → Q (.error .databaseError) l s')
    (hf : ∀ o l d, c.exec o l d = (.ok (f (l.view d)), l, d) := by intros; rfl)
    (hc : c ≠ .commit := by nofun) : P.wp t ((db c).bind k) Q l s :=
  wp_faulty hQ (x := fun _ s' => (.ok (f (l.view s'.db)), l, s'))
    (fun _ _ => by simp only [exec, hf])
    fun o s' hr ho => ⟨hk c o l s' hc hr.inv ho, herr s' hr, herr s' hr, hok s' hr⟩

lemma wp_insert (hk : DbKeeps P t) {rows : Answer → Ledger} {f : Answer → c.Res}
    {k : c.Res → LedgerProg α}
    (hok : ∀ o s', P.Later t s s' → (l.view s'.db).Free (rows o) →
      P.wp t (k (f o)) Q (l.stage (rows o)) s')
    (herr : ∀ e l' s', e.isUnbalanced = false → P.Later t s s' → Q (.error e) l' s')
    (hf : ∀ o l d, c.exec o l d = insert (rows o) (f o) l d := by intros; rfl)
    (hc : c ≠ .commit := by nofun) : P.wp t ((db c).bind k) Q l s := by
  refine wp_faulty hQ (fun _ _ => rfl) fun o s' hr ho =>
    ⟨hk c o l s' hc hr.inv ho, herr _ _ _ rfl hr, herr _ _ _ rfl ?_, ?_⟩
  · simpa only [hf, insert_db] using hr
  · rw [hf, insert]
    by_cases hcf : (l.view s'.db).conflicts (rows o) = true
    · simp only [if_pos hcf]
      exact herr _ _ _ rfl hr
    · simp only [if_neg hcf]
      exact hok o s' hr (Ledger.conflicts_eq_false.mp (by simpa using hcf))

/-- The commit: the staged rows are added in one step, or nothing is. An exception can come before
or after that step. -/
lemma wp_commit {k : Unit → LedgerProg α}
    (hk : ∀ o s', P.Later t s s' → P.ok t (.db .commit) l s' o → P.Keeps t (.db .commit) o l s')
    (hok : ∀ o s', P.Later t s s' → P.ok t (.db .commit) l s' o → s'.db.Free l.staged →
      P.wp t (k ()) Q {} { s' with db := s'.db ++ l.staged } ∧
        Q (.error .databaseError) {} { s' with db := s'.db ++ l.staged })
    (herr : ∀ e s', e.isUnbalanced = false → P.Later t s s' → Q (.error e) l s') :
    P.wp t ((db .commit).bind k) Q l s := by
  refine wp_faulty hQ (fun _ _ => rfl) fun o s' hr ho =>
    ⟨hk o s' hr ho, herr _ _ rfl hr, ?_⟩
  simp only [DbCmd.exec]
  by_cases hcf : s'.db.conflicts l.staged = true
  · simp only [if_pos hcf]
    exact ⟨herr _ _ rfl hr, herr _ _ rfl hr⟩
  · simp only [if_neg hcf]
    exact (hok o s' hr ho (Ledger.conflicts_eq_false.mp (by simpa using hcf))).symm

lemma wp_reset (hk : DbKeeps P t) {a : c.Res} {k : c.Res → LedgerProg α}
    (hok : ∀ s', P.Later t s s' → P.wp t (k a) Q {} s')
    (herr : ∀ l' s', P.Later t s s' → Q (.error .databaseError) l' s')
    (hf : ∀ o l d, c.exec o l d = (.ok a, {}, d) := by intros; rfl)
    (hc : c ≠ .commit := by nofun) : P.wp t ((db c).bind k) Q l s :=
  wp_faulty hQ (x := fun _ s' => (.ok a, {}, s')) (fun _ _ => by simp only [exec, hf])
    fun o s' hr ho => ⟨hk c o l s' hc hr.inv ho, herr l s' hr, herr {} s' hr, hok s' hr⟩

lemma wp_redis {k : c.Res → LedgerProg α}
    (hk : ∀ o s', P.Later t s s' → P.ok t (.redis c) l s' o → P.Keeps t (.redis c) o l s')
    (hok : ∀ s', P.Later t s s' → P.wp t (k (c.exec s').1) Q l (c.exec s').2)
    (herr : ∀ s', P.Later t s s' →
      Q (.error .redisError) l s' ∧ Q (.error .redisError) l (c.exec s').2) :
    P.wp t ((redis c).bind k) Q l s :=
  wp_faulty hQ (fun _ _ => rfl) fun o s' hr ho =>
    ⟨hk o s' hr ho, (herr s' hr).1, (herr s' hr).2, hok s' hr⟩

lemma wp_uuid {k : UUID → LedgerProg α}
    (hk : ∀ o s, P.inv s → P.ok t (.proc .uuid) l s o → P.Keeps t (.proc .uuid) o l s)
    (hok : ∀ id s', P.Later t s s' → P.wp t (k id) Q l s') :
    P.wp t ((proc .uuid).bind k) Q l s :=
  hQ.call_bind fun s' o hr hi ho => ⟨hk o s' hi ho, hok (o.ids 0) s' ⟨hr, hi⟩⟩

end Rules

/-! ## Quiet requests -/

/-- Requests that a call may make at any point: each keeps the protocol, and none is a commit. -/
structure Quiet (P : Protocol ledgerMachine) (t : Tid) (okC : LedgerCmd → Prop) : Prop where
  keeps : ∀ c o l s, okC c → P.inv s → P.ok t c l s o → P.Keeps t c o l s
  ne_commit : ∀ c, okC c → c ≠ .db .commit

lemma Quiet.alone (t : Tid) : Quiet (alone ledgerMachine t) t (· ≠ .db .commit) :=
  ⟨fun _ _ _ _ _ _ _ => alone_keeps .., fun _ h => h⟩

lemma Quiet.wp (h : Quiet P t okC) {α : Type} {p : LedgerProg α}
    (hp : p.Within okC (·.isUnbalanced = false)) {I : Ledger → Prop}
    (hI : ∀ s s' : World, I s.db → P.Later t s s' → I s'.db) (hs : I s.db) :
    P.wp t p (fun r _ s => I s.db ∧ ∀ e, r = .error e → e.isUnbalanced = false) l s := by
  have hstep : ∀ c o l s, okC c → P.inv s → I (s : World).db → P.ok t c l s o →
      P.Keeps t c o l s ∧ I (c.exec o l s).2.2.db ∧
        ∀ e, (c.exec o l s).1 = .error e → e.isUnbalanced = false := by
    intro c o l s hc hi hs ho
    refine ⟨h.keeps c o l s hc hi ho, ?_, fun e he => exec_error he⟩
    rw [exec_db_eq (h.ne_commit c hc)]
    exact hs
  exact wp_within (M := ledgerMachine) (I := fun _ s => I s.db) (fun _ => hI) hstep hp hs

lemma Quiet.seq (h : Quiet P t okC) {α β : Type} {p : LedgerProg β}
    (hp : p.Within okC (·.isUnbalanced = false)) {I : Ledger → Prop}
    (hI : ∀ s s' : World, I s.db → P.Later t s s' → I s'.db) {k : β → LedgerProg α}
    {Q : LedgerPost α} (hs : I s.db)
    (hok : ∀ b l' s', P.inv s' → I s'.db → P.wp t (k b) Q l' s')
    (herr : ∀ e l' s', e.isUnbalanced = false → I s'.db → Q (.error e) l' s') :
    P.wp t (p.bind k) Q l s := by
  refine wp_bind (wp_mono (h.wp hp hI hs) fun r l' s' hi hr => ?_)
  cases r with
  | ok b => exact hok b l' s' hi hr.1
  | error e => exact herr e l' s' (hr.2 e rfl) hr.1

end CleanArch
