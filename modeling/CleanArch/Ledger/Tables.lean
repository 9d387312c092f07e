import CleanArch.Books.DoubleEntry
import CleanArch.Ledger.Repository
import Mathlib.Data.List.Nodup

/-!
# Facts about the tables

- **Growth** (`Ledger.Grows`): rows are only added. A row that a read found is found again.
- **Unique keys** (`Ledger.Keyed`): what the unique constraints of `app/models` keep. A commit adds
  rows that are keyed among themselves and `Free` of the committed ones (`Keyed.append`).
- **Books** (`Ledger.book`): the postings as signed amounts.
-/

namespace CleanArch

open List

namespace Ledger

/-! ## Growth -/

/-- `e` has the rows of `d`, and more rows after them. -/
def Grows (d e : Ledger) : Prop := ∃ rows, e = d ++ rows

lemma Grows.refl (d : Ledger) : Grows d d := ⟨empty, (append_empty d).symm⟩

variable (d rows : Ledger)

lemma Grows.append : Grows d (d ++ rows) := ⟨rows, rfl⟩

lemma Grows.trans {d e f : Ledger} (h1 : Grows d e) (h2 : Grows e f) : Grows d f := by
  obtain ⟨x, rfl⟩ := h1
  obtain ⟨y, rfl⟩ := h2
  exact ⟨x ++ y, append_assoc d x y⟩

variable {a : LedgerAccountEntity}

lemma Grows.mem_accounts {d e : Ledger} (h : Grows d e) (ha : a ∈ d.accounts) : a ∈ e.accounts := by
  obtain ⟨x, rfl⟩ := h
  exact mem_append_left _ ha

lemma Grows.mem_entries {d e : Ledger} (h : Grows d e) (hx : x ∈ d.entries) : x ∈ e.entries := by
  obtain ⟨y, rfl⟩ := h
  exact mem_append_left _ hx

lemma Grows.mem_outbox {d e : Ledger} (h : Grows d e) (hx : x ∈ d.outbox) : x ∈ e.outbox := by
  obtain ⟨y, rfl⟩ := h
  exact mem_append_left _ hx

lemma getAccountById_append (id : UUID) :
    (d ++ rows).getAccountById id = (d.getAccountById id).or (rows.getAccountById id) := by
  simp [getAccountById]

lemma getAccountByNumber_append : (d ++ rows).getAccountByNumber number =
      (d.getAccountByNumber number).or (rows.getAccountByNumber number) := by
  simp [getAccountByNumber]

lemma Grows.getAccountById {d e : Ledger} (h : Grows d e) {id : UUID}
    (ha : d.getAccountById id = some a) : e.getAccountById id = some a := by
  obtain ⟨x, rfl⟩ := h
  rw [getAccountById_append, ha, Option.some_or]

lemma Grows.getAccountByNumber {d e : Ledger} (h : Grows d e)
    (ha : d.getAccountByNumber number = some a) : e.getAccountByNumber number = some a := by
  obtain ⟨x, rfl⟩ := h
  rw [getAccountByNumber_append, ha, Option.some_or]

lemma getAccountById_some {d : Ledger} {id : UUID} (h : d.getAccountById id = some a) :
    a ∈ d.accounts ∧ a.id = id :=
  ⟨mem_of_find?_eq_some h, by simpa using List.find?_some h⟩

lemma getAccountByNumber_some {d : Ledger} (h : d.getAccountByNumber number = some a) :
    a ∈ d.accounts ∧ a.accountNumber = number :=
  ⟨mem_of_find?_eq_some h, by simpa using List.find?_some h⟩

/-! ## Unique keys -/

structure Keyed (d : Ledger) : Prop where
  accountIds : (d.accounts.map (·.id)).Nodup
  accountNumbers : (d.accounts.map (·.accountNumber)).Nodup
  entryIds : (d.entries.map (·.id)).Nodup
  entryReferences : (d.entries.map (·.referenceId)).Nodup
  outboxIds : (d.outbox.map (·.id)).Nodup
  batchIds : (d.batches.map (·.id)).Nodup
  batchReferences : (d.batches.map (·.batchReference)).Nodup

/-- No row of `rows` breaks a unique constraint against `d`. -/
structure Free (d rows : Ledger) : Prop where
  accounts : ∀ a ∈ rows.accounts, ∀ b ∈ d.accounts,
    b.id ≠ a.id ∧ b.accountNumber ≠ a.accountNumber
  entries : ∀ a ∈ rows.entries, ∀ b ∈ d.entries, b.id ≠ a.id ∧ b.referenceId ≠ a.referenceId
  outbox : ∀ a ∈ rows.outbox, ∀ b ∈ d.outbox, b.id ≠ a.id
  batches : ∀ a ∈ rows.batches, ∀ b ∈ d.batches,
    b.id ≠ a.id ∧ b.batchReference ≠ a.batchReference

lemma conflicts_eq_false {d rows : Ledger} : d.conflicts rows = false ↔ Free d rows := by
  simp only [conflicts, Bool.or_eq_false_iff, any_eq_false, and_assoc]
  exact ⟨fun ⟨h1, h2, h3, h4⟩ => ⟨by simpa using h1, by simpa using h2, by simpa using h3,
    by simpa using h4⟩, fun ⟨h1, h2, h3, h4⟩ => ⟨by simpa using h1, by simpa using h2,
    by simpa using h3, by simpa using h4⟩⟩

lemma Free.of_append {d e rows : Ledger} (h : Free (d ++ e) rows) : Free d rows ∧ Free e rows :=
  ⟨⟨fun a ha b hb => h.accounts a ha b (mem_append_left _ hb),
    fun a ha b hb => h.entries a ha b (mem_append_left _ hb),
    fun a ha b hb => h.outbox a ha b (mem_append_left _ hb),
    fun a ha b hb => h.batches a ha b (mem_append_left _ hb)⟩,
   ⟨fun a ha b hb => h.accounts a ha b (mem_append_right _ hb),
    fun a ha b hb => h.entries a ha b (mem_append_right _ hb),
    fun a ha b hb => h.outbox a ha b (mem_append_right _ hb),
    fun a ha b hb => h.batches a ha b (mem_append_right _ hb)⟩⟩

lemma Keyed.empty : Keyed Ledger.empty := by
  constructor <;> exact nodup_nil

lemma nodup_map_append {α β : Type} {f : α → β} {xs ys : List α} (hx : (xs.map f).Nodup)
    (hy : (ys.map f).Nodup) (h : ∀ y ∈ ys, ∀ x ∈ xs, f x ≠ f y) : ((xs ++ ys).map f).Nodup := by
  rw [map_append, nodup_append]
  refine ⟨hx, hy, fun a ha b hb => ?_⟩
  obtain ⟨x, hx', rfl⟩ := mem_map.mp ha
  obtain ⟨y, hy', rfl⟩ := mem_map.mp hb
  exact h y hy' x hx'

lemma Keyed.append {d rows : Ledger} (hd : Keyed d) (hr : Keyed rows) (h : Free d rows) :
    Keyed (d ++ rows) where
  accountIds := nodup_map_append hd.1 hr.1 fun y hy x hx => (h.accounts y hy x hx).1
  accountNumbers := nodup_map_append hd.2 hr.2 fun y hy x hx => (h.accounts y hy x hx).2
  entryIds := nodup_map_append hd.3 hr.3 fun y hy x hx => (h.entries y hy x hx).1
  entryReferences := nodup_map_append hd.4 hr.4 fun y hy x hx => (h.entries y hy x hx).2
  outboxIds := nodup_map_append hd.5 hr.5 fun y hy x hx => h.outbox y hy x hx
  batchIds := nodup_map_append hd.6 hr.6 fun y hy x hx => (h.batches y hy x hx).1
  batchReferences := nodup_map_append hd.7 hr.7 fun y hy x hx => (h.batches y hy x hx).2

lemma Keyed.getAccountById {d : Ledger} (h : Keyed d) (ha : a ∈ d.accounts) :
    d.getAccountById a.id = some a := by
  obtain ⟨b, hb⟩ : ∃ b, d.getAccountById a.id = some b :=
    Option.isSome_iff_exists.mp (List.find?_isSome.mpr ⟨a, ha, by simp⟩)
  obtain ⟨hm, hid⟩ := getAccountById_some hb
  rw [hb, inj_on_of_nodup_map h.accountIds hm ha hid]

end Ledger

/-! ## Books

A posting as a signed amount of an account, for `Books`. -/

def PostingDirection.signed : PostingDirection → Decimal → Decimal
  | .debit, x => x
  | .credit, x => -x

def AccountType.sided (type : AccountType) (x : Decimal) : Decimal :=
  if type.debitNormal then x else -x

lemma AccountType.sided_add (type : AccountType) (x y : Decimal) :
    type.sided (x + y) = type.sided x + type.sided y := by
  unfold AccountType.sided
  split
  · rfl
  · ring

def JournalPostingEntity.signed (p : JournalPostingEntity) : UUID × Decimal :=
  (p.accountId, p.direction.signed p.amount)

def Ledger.book (d : Ledger) : List (UUID × Decimal) := d.postings.map (·.signed)

@[simp] lemma Ledger.book_append (d : Ledger) : (d ++ rows).book = d.book ++ rows.book := by
  simp [book]

lemma totalOf_cons :
    totalOf dir (p :: ps) = (if p.direction = dir then p.amount else 0) + totalOf dir ps := by
  by_cases h : p.direction = dir
  all_goals simp [totalOf, h]

lemma totalOf_sub (on : UUID → Prop) [DecidablePred on] (ps : List JournalPostingEntity) :
    totalOf .debit (ps.filter fun p => on p.accountId) -
      totalOf .credit (ps.filter fun p => on p.accountId) = Books.net on (ps.map (·.signed)) := by
  induction ps with
  | nil => simp [totalOf]
  | cons p ps ih =>
    rw [map_cons, Books.net_cons, ← ih]
    by_cases h : on p.accountId
    · rw [filter_cons_of_pos (by simpa using h), totalOf_cons, totalOf_cons]
      cases hd : p.direction with
      | debit | credit => simp [JournalPostingEntity.signed, h, hd, PostingDirection.signed]; ring
    · simp [JournalPostingEntity.signed, h]

lemma totalOf_eq_iff :
    totalOf .debit ps = totalOf .credit ps ↔ Books.total (ps.map (·.signed)) = 0 := by
  have h := totalOf_sub (fun _ => True) ps
  simp only [decide_true, filter_true] at h
  rw [Books.total, ← h, sub_eq_zero]

lemma normalBalance_aggregates (type : AccountType) (d : Ledger) (id : UUID) :
    normalBalance type (d.getAccountBalanceAggregates id) =
      type.sided (Books.balance id d.book) := by
  have h := totalOf_sub (· = id) d.postings
  unfold normalBalance AccountType.sided Ledger.book
  rw [Books.balance, ← h]
  split
  · rfl
  · simp only [Ledger.getAccountBalanceAggregates]; ring

end CleanArch
