import CleanArch.Dsa.Trie

/-!
# Redaction of log events

`scrub_data` and `redact_sensitive_data_processor` (`app/core/logging.py`). `PyData` is one family
of types for a value, the items of a list or tuple, and the entries of a dictionary. `Hides` relates
two values of the same shape that differ only in scalars under a sensitive string key; a tuple is
kept as it is, with the dictionaries in it.
-/

namespace CleanArch

open Bool

inductive PyScalar where
  | none
  | bool (b : Bool)
  | number (q : ℚ)
  | str (s : String)
  deriving DecidableEq

/-- A key of a dictionary: a string, or something else with its `str`. -/
inductive PyKey where
  | str (s : String)
  | other (text : String)
  deriving DecidableEq

/-- `str(key)`. -/
def PyKey.text : PyKey → String
  | .str s => s
  | .other text => text

/-- What a `PyData` stands for. -/
inductive PyKind where
  | value
  | items
  | entries

inductive PyData : PyKind → Type where
  | scalar (a : PyScalar) : PyData .value
  | dict (entries : PyData .entries) : PyData .value
  | list (items : PyData .items) : PyData .value
  | tuple (items : PyData .items) : PyData .value
  | noItems : PyData .items
  | item (v : PyData .value) (rest : PyData .items) : PyData .items
  | noEntries : PyData .entries
  | entry (key : PyKey) (v : PyData .value) (rest : PyData .entries) : PyData .entries
  deriving DecidableEq

abbrev PyValue := PyData .value

abbrev EventDict := List (PyKey × PyValue)

/-! ## Keys -/

def sensitiveKeyNames : List String :=
  ["password", "token", "secret", "authorization", "credit_card", "access_token", "refresh_token",
    "api_key", "client_secret", "private_key", "auth_token", "user_password"]

def sensitiveSuffixes : List String := ["_password", "_secret", "_token", "_key", "_credit_card"]

def redactedStr : PyValue := .scalar (.str "[REDACTED]")

section

variable [PyCase]

def isSensitiveKey (key : String) : Bool :=
  let keyClean := (PyCase.lower key).toList.map fun c => if c = '-' then '_' else c
  sensitiveKeyNames.any (fun name => name.toList = keyClean) ||
    sensitiveSuffixes.any fun suffix => suffix.toList.isSuffixOf keyClean

/-- `isinstance(k, str) and is_sensitive_key(k)`. -/
def PyKey.sensitive : PyKey → Bool
  | .str s => isSensitiveKey s
  | .other _ => false

/-! ## The processor -/

/-- `scrub_data`, with its loops over items and entries. -/
def scrubData {k : PyKind} : PyData k → PyData k
  | .dict entries => .dict (scrubData entries)
  | .list items => .list (scrubData items)
  | .scalar a => .scalar a
  | .tuple items => .tuple items
  | .noItems => .noItems
  | .item v rest => .item (scrubData v) (scrubData rest)
  | .noEntries => .noEntries
  | .entry key v rest =>
    .entry key (if key.sensitive then redactedStr else scrubData v) (scrubData rest)

def redactEntry (key : PyKey) (v : PyValue) : PyValue :=
  if isSensitiveKey key.text then redactedStr
  else
    match v with
    | .dict entries => scrubData (.dict entries)
    | .list items => scrubData (.list items)
    | .tuple items => .tuple items
    | .scalar a => .scalar a

def redactSensitiveDataProcessor (eventDict : EventDict) : EventDict :=
  eventDict.map fun p => (p.1, redactEntry p.1 p.2)

/-! ## What is hidden, and what is exposed -/

/-- Two values of the same shape that differ only in scalars under a sensitive string key. The flag
says that the values are under such a key already. -/
inductive Hides : Bool → {k : PyKind} → PyData k → PyData k → Prop where
  | same (b : Bool) (a : PyScalar) : Hides b (.scalar a) (.scalar a)
  | secret (a a' : PyScalar) : Hides true (.scalar a) (.scalar a')
  | dict {b : Bool} {es es' : PyData .entries} (h : Hides b es es') :
    Hides b (.dict es) (.dict es')
  | list {b : Bool} {xs xs' : PyData .items} (h : Hides b xs xs') : Hides b (.list xs) (.list xs')
  | tuple {b : Bool} {xs xs' : PyData .items} (h : Hides b xs xs') :
    Hides b (.tuple xs) (.tuple xs')
  | noItems (b : Bool) : Hides b .noItems .noItems
  | item {b : Bool} {v v' : PyValue} {xs xs' : PyData .items} (hv : Hides b v v')
    (hrest : Hides b xs xs') : Hides b (.item v xs) (.item v' xs')
  | noEntries (b : Bool) : Hides b .noEntries .noEntries
  | entry {b : Bool} (key : PyKey) {v v' : PyValue} {es es' : PyData .entries}
    (hv : Hides (b || key.sensitive) v v') (hrest : Hides b es es') :
    Hides b (.entry key v es) (.entry key v' es')

/-- A scalar is under a sensitive string key; the flag is that of `Hides`. -/
def hasSecret {k : PyKind} (b : Bool) : PyData k → Bool
  | .scalar _ => b
  | .dict entries => hasSecret b entries
  | .list items => hasSecret b items
  | .tuple items => hasSecret b items
  | .noItems => false
  | .item v rest => hasSecret b v || hasSecret b rest
  | .noEntries => false
  | .entry key v rest => hasSecret (b || key.sensitive) v || hasSecret b rest

/-- A tuple that `scrub_data` reaches has a scalar under a sensitive string key. -/
def exposes {k : PyKind} : PyData k → Bool
  | .scalar _ => false
  | .dict entries => exposes entries
  | .list items => exposes items
  | .tuple items => hasSecret false items
  | .noItems => false
  | .item v rest => exposes v || exposes rest
  | .noEntries => false
  | .entry key v rest => (!key.sensitive && exposes v) || exposes rest

/-- Two events of the same shape that differ only in scalars under a sensitive string key. -/
def HidesEvent : EventDict → EventDict → Prop :=
  List.Forall₂ fun p p' => p.1 = p'.1 ∧ Hides p.1.sensitive p.2 p'.2

/-- A tuple that the processor reaches has a scalar under a sensitive string key. The processor
looks at the `str` of every key of the event. -/
def exposesEvent (eventDict : EventDict) : Bool :=
  eventDict.any fun p => !isSensitiveKey p.1.text && exposes p.2

variable {k : PyKind} {b : Bool}

/-! ## Nothing exposed -/

lemma Hides.eq_of_hasSecret (h : Hides b v v') (hv : hasSecret b v = false) : v' = v := by
  induction h with
  | same | noItems | noEntries => rfl
  | secret => cases hv
  | dict h ih | list h ih | tuple h ih => rw [ih hv]
  | item hv' hrest ihv ihrest | entry key hv' hrest ihv ihrest =>
    obtain ⟨h1, h2⟩ := or_eq_false_iff.mp hv
    rw [ihv h1, ihrest h2]

lemma Hides.scrubData_eq (h : Hides b v v') (hb : b = false) (hv : exposes v = false) :
    scrubData v' = scrubData v := by
  induction h with
  | same | noItems | noEntries => rfl
  | secret => cases hb
  | dict h ih | list h ih => rw [scrubData, ih hb hv, scrubData]
  | tuple h =>
    subst hb
    rw [h.eq_of_hasSecret hv]
  | item hv' hrest ihv ihrest =>
    obtain ⟨h1, h2⟩ := or_eq_false_iff.mp hv
    rw [scrubData, ihv hb h1, ihrest hb h2, scrubData]
  | entry key hv' hrest ihv ihrest =>
    obtain ⟨h1, h2⟩ := or_eq_false_iff.mp hv
    rw [scrubData, scrubData, ihrest hb h2]
    cases hkey : key.sensitive with
    | true => rfl
    | false =>
      rw [hkey] at h1
      rw [ihv (by rw [hb, hkey]; rfl) (by simpa using h1)]

lemma redactEntry_of_not_sensitive (hkey : isSensitiveKey key.text = false) :
    redactEntry key v = scrubData v := by
  cases v with
  | scalar | tuple => simp [redactEntry, hkey, scrubData]
  | dict | list => simp [redactEntry, hkey]

lemma redactEntry_of_sensitive (hkey : isSensitiveKey key.text = true) :
    redactEntry key v = redactedStr :=
  if_pos hkey

lemma PyKey.sensitive_eq_false {key : PyKey} (hkey : isSensitiveKey key.text = false) :
    key.sensitive = false := by
  cases key with
  | str => exact hkey
  | other => rfl

lemma HidesEvent.redact_eq (h : HidesEvent e e') (he : exposesEvent e = false) :
    redactSensitiveDataProcessor e' = redactSensitiveDataProcessor e := by
  induction h with
  | nil => rfl
  | @cons p p' e e' hp hrest ih =>
    obtain ⟨h1, h2⟩ := or_eq_false_iff.mp he
    obtain ⟨key, v⟩ := p
    obtain ⟨key', v'⟩ := p'
    obtain ⟨rfl, hv⟩ := hp
    have hentry : redactEntry key v' = redactEntry key v := by
      cases hkey : isSensitiveKey key.text with
      | true => rw [redactEntry_of_sensitive hkey, redactEntry_of_sensitive hkey]
      | false =>
        rw [redactEntry_of_not_sensitive hkey, redactEntry_of_not_sensitive hkey]
        exact hv.scrubData_eq (PyKey.sensitive_eq_false hkey) (by simpa [hkey] using h1)
    exact congrArg₂ List.cons (congrArg (Prod.mk key) hentry) (ih h2)

/-! ## Something exposed -/

def PyScalar.change : PyScalar → PyScalar
  | .none => .bool true
  | _ => .none

omit [PyCase] in
lemma PyScalar.change_ne (a : PyScalar) : a.change ≠ a := by
  cases a <;> simp [change]

def changeSecrets {k : PyKind} (b : Bool) : PyData k → PyData k
  | .scalar a => .scalar (if b then a.change else a)
  | .dict entries => .dict (changeSecrets b entries)
  | .list items => .list (changeSecrets b items)
  | .tuple items => .tuple (changeSecrets b items)
  | .noItems => .noItems
  | .item v rest => .item (changeSecrets b v) (changeSecrets b rest)
  | .noEntries => .noEntries
  | .entry key v rest => .entry key (changeSecrets (b || key.sensitive) v) (changeSecrets b rest)

lemma hides_changeSecrets (b : Bool) : Hides b v (changeSecrets b v) := by
  induction v generalizing b with
  | scalar a =>
    cases b with
    | true => exact .secret a _
    | false => exact .same false a
  | dict entries ih => exact .dict (ih b)
  | list items ih => exact .list (ih b)
  | tuple items ih => exact .tuple (ih b)
  | noItems => exact .noItems b
  | item v rest ihv ihrest => exact .item (ihv b) (ihrest b)
  | noEntries => exact .noEntries b
  | entry key v rest ihv ihrest => exact .entry key (ihv _) (ihrest b)

lemma changeSecrets_ne (h : hasSecret b v = true) : changeSecrets b v ≠ v := by
  induction v generalizing b with
  | scalar a =>
    subst h
    simpa [changeSecrets] using a.change_ne
  | dict entries ih | list items ih | tuple items ih => simpa [changeSecrets] using ih h
  | noItems | noEntries => cases h
  | item v rest ihv ihrest =>
    intro heq
    injection heq with hv hrest
    rcases or_eq_true_iff.mp h with h | h
    · exact ihv h hv
    · exact ihrest h hrest
  | entry key v rest ihv ihrest =>
    intro heq
    injection heq with _ hv hrest
    rcases or_eq_true_iff.mp h with h | h
    · exact ihv h hv
    · exact ihrest h hrest

lemma scrubData_changeSecrets_ne (h : exposes v = true) :
    scrubData (changeSecrets false v) ≠ scrubData v := by
  induction v with
  | scalar | noItems | noEntries => cases h
  | dict entries ih | list items ih => simpa [changeSecrets, scrubData] using ih h
  | tuple => simpa [changeSecrets, scrubData] using changeSecrets_ne h
  | item v rest ihv ihrest =>
    intro heq
    injection heq with hv hrest
    rcases or_eq_true_iff.mp h with h | h
    · exact ihv h hv
    · exact ihrest h hrest
  | entry key v rest ihv ihrest =>
    intro heq
    injection heq with _ hv hrest
    rcases or_eq_true_iff.mp h with h | h
    · obtain ⟨hkey, hexp⟩ := and_eq_true_iff.mp h
      have hkey : key.sensitive = false := by simpa using hkey
      rw [hkey] at hv
      exact ihv hexp hv
    · exact ihrest h hrest

def changeEvent (e : EventDict) : EventDict :=
  e.map fun p => (p.1, changeSecrets p.1.sensitive p.2)

lemma hidesEvent_changeEvent : HidesEvent e (changeEvent e) :=
  List.forall₂_map_right_iff.mpr
    (List.forall₂_same.mpr fun p _ => ⟨rfl, hides_changeSecrets p.1.sensitive⟩)

lemma redact_changeEvent_ne (h : exposesEvent e = true) :
    redactSensitiveDataProcessor (changeEvent e) ≠ redactSensitiveDataProcessor e := by
  obtain ⟨p, hp, hexp⟩ := List.any_eq_true.mp h
  obtain ⟨hkey, hexp⟩ := and_eq_true_iff.mp hexp
  have hkey : isSensitiveKey p.1.text = false := by simpa using hkey
  intro heq
  simp only [redactSensitiveDataProcessor, changeEvent, List.map_map] at heq
  have hentry : redactEntry p.1 (changeSecrets p.1.sensitive p.2) = redactEntry p.1 p.2 :=
    (Prod.mk.inj (List.map_inj_left.mp heq p hp)).2
  rw [redactEntry_of_not_sensitive hkey, redactEntry_of_not_sensitive hkey,
    PyKey.sensitive_eq_false hkey] at hentry
  exact scrubData_changeSecrets_ne hexp hentry

/-- **Redaction noninterference.** The redaction of an event is the same for all events that differ
from it only in scalars under sensitive string keys, exactly if no such scalar is in a tuple
outside of what is redacted. -/
theorem redaction_noninterference_iff (e : EventDict) : (∀ e', HidesEvent e e' →
      redactSensitiveDataProcessor e' = redactSensitiveDataProcessor e) ↔
      exposesEvent e = false := by
  constructor
  · intro h
    by_contra hexp
    exact redact_changeEvent_ne (eq_true_of_not_eq_false hexp) (h _ (hidesEvent_changeEvent))
  · exact fun he e' h => h.redact_eq he

lemma scrubData_scrubData (v : PyData k) : scrubData (scrubData v) = scrubData v := by
  induction v with
  | scalar | tuple | noItems | noEntries => rfl
  | dict _ ih | list _ ih => simp only [scrubData, ih]
  | item v rest ihv ihrest => simp only [scrubData, ihv, ihrest]
  | entry key v rest ihv ihrest =>
    simp only [scrubData, ihrest]
    split
    · rfl
    · rw [ihv]

/-- **Redaction is idempotent.** -/
theorem redaction_idempotent (e : EventDict) :
    redactSensitiveDataProcessor (redactSensitiveDataProcessor e) =
      redactSensitiveDataProcessor e := by
  simp only [redactSensitiveDataProcessor, List.map_map]
  refine List.map_congr_left fun p _ => Prod.ext rfl ?_
  show redactEntry p.1 (redactEntry p.1 p.2) = redactEntry p.1 p.2
  cases hkey : isSensitiveKey p.1.text with
  | true => rw [redactEntry_of_sensitive hkey, redactEntry_of_sensitive hkey]
  | false => simp only [redactEntry_of_not_sensitive hkey, scrubData_scrubData]

end

/-! ### A password in a tuple -/

/-- `{"users": ({"password": text},)}`. -/
def passwordInTuple (text : String) : EventDict :=
  [(.str "users",
    .tuple (.item (.dict (.entry (.str "password") (.scalar (.str text)) .noEntries)) .noItems))]

/-- The two events differ in the password, and so do their redactions. -/
theorem tuple_not_redacted :
    letI := asciiCase
    HidesEvent (passwordInTuple "hunter2") (passwordInTuple "letmein") ∧
      redactSensitiveDataProcessor (passwordInTuple "hunter2") = passwordInTuple "hunter2" ∧
      redactSensitiveDataProcessor (passwordInTuple "letmein") = passwordInTuple "letmein" ∧
      passwordInTuple "hunter2" ≠ passwordInTuple "letmein" := by
  let := asciiCase
  have hkey : (PyKey.str "password").sensitive = true := by decide +kernel
  have hsecret : Hides ((PyKey.str "users").sensitive || (PyKey.str "password").sensitive)
      (.scalar (.str "hunter2")) (.scalar (.str "letmein")) := by
    rw [hkey, Bool.or_true]
    exact .secret _ _
  refine ⟨.cons ⟨rfl, ?_⟩ .nil, by decide +kernel, by decide +kernel, by decide +kernel⟩
  exact .tuple (.item (.dict (.entry _ hsecret (.noEntries _))) (.noItems _))

end CleanArch
