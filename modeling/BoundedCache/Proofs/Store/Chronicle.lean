import BoundedCache.Proofs.Store.Dating
import BoundedCache.Proofs.Store.Exactness

/-!
# What an entry tells of its past

As long as a key stays in the store, its entry is a summary of the operations on that key
since it came in.  `Tells` reads the fields off the operations themselves: the number of
writes, the number of reads, the last write, and the latest of the times that count as an
access.  The clock may go back at any time, and the fields differ in what they make of that:
the time of creation is that of the first write; the time of update is that of the last
write, but not before creation; the time of access is the maximum over all accesses.

One operation does to the entry of a key what `Action.onEntry` says, or takes it out
(`Agrees.act_get?`).  Operations on other keys leave it as it is.
-/

namespace BoundedCache.Store

variable {K V : Type}

/-! ## The operations on one key -/

/-- A write, without its key. -/
structure Write (V : Type) where
  value : V
  attributes : Attributes
  expires : Option Nat
  now : Nat
  recordAccess : Bool

/-- The operation that writes to `key`. -/
def Write.at (w : Write V) (key : K) : Action K V :=
  .put key w.value w.attributes w.expires w.now w.recordAccess

/-- The entry after another write. -/
def Write.onto (w : Write V) (e : Entry K V) : Entry K V :=
  rewritten e w.value w.attributes w.expires w.now w.recordAccess

theorem Write.onto_eq (w : Write V) (e : Entry K V) :
    w.onto e =
      { e with
        value := w.value
        accessed := if w.recordAccess then max w.now e.accessed else e.accessed
        updated := max w.now e.created
        expires := w.expires
        cost := w.attributes.cost
        size := w.attributes.size
        version := e.version + 1 } := by
  rw [onto, rewritten]
  cases w.recordAccess <;> rfl

namespace Action

/-- The key that the operation is about, if it is about one. -/
def key? : Action K V → Option K
  | .put key .. | .touch key _ | .remove key => some key
  | .removeIf _ | .clear | .trimTo .. | .setLimits .. => none

variable [DecidableEq K]

/-- The write to `key`, if the operation is one. -/
def write? (key : K) : Action K V → Option (Write V)
  | .put other value attributes expires now recordAccess =>
      if other = key then some ⟨value, attributes, expires, now, recordAccess⟩ else none
  | _ => none

/-- The time of the read of `key`, if the operation is one. -/
def read? (key : K) : Action K V → Option Nat
  | .touch other now => if other = key then some now else none
  | _ => none

/-- The time at which the operation counts as an access of `key`: that of a read, or of a
write that records one. -/
def access? (key : K) (action : Action K V) : Option Nat :=
  action.read? key <|> ((action.write? key).filter (·.recordAccess)).map (·.now)

/-- The entry of `key` after the operation, if it stays. -/
def onEntry (key : K) (action : Action K V) (e : Entry K V) : Entry K V :=
  match action.write? key, action.read? key with
  | some w, _ => w.onto e
  | none, some now => e.access now
  | none, none => e

theorem onEntry_write (w : Write V) (key : K) (e : Entry K V) :
    (w.at key).onEntry key e = w.onto e := by
  simp [Write.at, onEntry, write?]

theorem onEntry_touch (key : K) (now : Nat) (e : Entry K V) :
    (touch key now).onEntry key e = e.access now := by
  simp [onEntry, write?, read?]

theorem onEntry_of_key_ne {key : K} {action : Action K V} (h : action.key? ≠ some key)
    (e : Entry K V) : action.onEntry key e = e := by
  cases action with
  | put other | touch other =>
      have hne : ¬ other = key := fun heq => h (congrArg some heq)
      simp only [onEntry, write?, read?, if_neg hne]
  | remove | removeIf | clear | trimTo | setLimits => rfl

/-- No operation both writes and reads. -/
theorem read?_of_write? {key : K} {action : Action K V} {w : Write V}
    (h : action.write? key = some w) : action.read? key = none := by
  cases action with
  | put => rfl
  | touch | remove | removeIf | clear | trimTo | setLimits =>
      exact absurd h (Option.some_ne_none w).symm

end Action

variable [DecidableEq K] {s : Store K V} {key : K} {e e' : Entry K V} {action : Action K V}
variable {first : Write V} {log : List (Action K V)}

/-! ## What the fields say -/

/-- The writes to `key`. -/
def writes (key : K) (log : List (Action K V)) : List (Write V) := log.filterMap (·.write? key)

/-- The times of the reads of `key`. -/
def reads (key : K) (log : List (Action K V)) : List Nat := log.filterMap (·.read? key)

/-- The times of the accesses of `key`. -/
def accesses (key : K) (log : List (Action K V)) : List Nat := log.filterMap (·.access? key)

/-- The entry summarises the operations `log` on its key since the write that brought it in. -/
structure Tells (e : Entry K V) (key : K) (first : Write V) (log : List (Action K V)) : Prop where
  key_eq : e.key = key
  created_eq : e.created = first.now
  version_eq : e.version = 1 + (writes key log).length
  hits_eq : e.hits = (reads key log).length
  updated_eq : e.updated = max ((writes key log).getLastD first).now first.now
  accessed_eq : e.accessed = (accesses key log).foldl max first.now
  value_eq : e.value = ((writes key log).getLastD first).value
  expires_eq : e.expires = ((writes key log).getLastD first).expires
  cost_eq : e.cost = ((writes key log).getLastD first).attributes.cost
  size_eq : e.size = ((writes key log).getLastD first).attributes.size

theorem tells_new (key : K) (first : Write V) :
    Tells (.new key first.value first.attributes first.expires first.now) key first [] where
  key_eq := rfl
  created_eq := rfl
  version_eq := rfl
  hits_eq := rfl
  updated_eq := (Nat.max_self first.now).symm
  accessed_eq := rfl
  value_eq := rfl
  expires_eq := rfl
  cost_eq := rfl
  size_eq := rfl

theorem Tells.write (h : Tells e key first log) {w : Write V}
    (hwrite : action.write? key = some w) : Tells (w.onto e) key first (log ++ [action]) := by
  have hread := Action.read?_of_write? hwrite
  have hwrites : writes key (log ++ [action]) = writes key log ++ [w] := by
    simp [writes, hwrite]
  have hlast : (writes key (log ++ [action])).getLastD first = w := by simp [hwrites]
  have hreads : reads key (log ++ [action]) = reads key log := by simp [reads, hread]
  have haccesses : accesses key (log ++ [action]) =
      accesses key log ++ if w.recordAccess then [w.now] else [] := by
    cases hrecord : w.recordAccess <;> simp [accesses, Action.access?, hwrite, hread, hrecord]
  rw [Write.onto_eq]
  exact {
    key_eq := h.key_eq
    created_eq := h.created_eq
    version_eq := by
      rw [hwrites, List.length_append, List.length_singleton, ← Nat.add_assoc, ← h.version_eq]
    hits_eq := hreads ▸ h.hits_eq
    updated_eq := by rw [hlast, ← h.created_eq]
    accessed_eq := by
      rw [haccesses, List.foldl_append, ← h.accessed_eq]
      cases w.recordAccess with
      | false => rfl
      | true => exact Nat.max_comm w.now e.accessed
    value_eq := by rw [hlast]
    expires_eq := by rw [hlast]
    cost_eq := by rw [hlast]
    size_eq := by rw [hlast] }

theorem Tells.read (h : Tells e key first log) {now : Nat} (hwrite : action.write? key = none)
    (hread : action.read? key = some now) :
    Tells (e.access now) key first (log ++ [action]) := by
  have hwrites : writes key (log ++ [action]) = writes key log := by simp [writes, hwrite]
  have hreads : reads key (log ++ [action]) = reads key log ++ [now] := by simp [reads, hread]
  have haccesses : accesses key (log ++ [action]) = accesses key log ++ [now] := by
    simp [accesses, Action.access?, hread]
  exact {
    key_eq := h.key_eq
    created_eq := h.created_eq
    version_eq := hwrites ▸ h.version_eq
    hits_eq := by
      rw [hreads, List.length_append, List.length_singleton, ← h.hits_eq]
      rfl
    updated_eq := hwrites ▸ h.updated_eq
    accessed_eq := by
      rw [haccesses, List.foldl_append, ← h.accessed_eq]
      exact Nat.max_comm now e.accessed
    value_eq := hwrites ▸ h.value_eq
    expires_eq := hwrites ▸ h.expires_eq
    cost_eq := hwrites ▸ h.cost_eq
    size_eq := hwrites ▸ h.size_eq }

theorem Tells.pass (h : Tells e key first log) (hwrite : action.write? key = none)
    (hread : action.read? key = none) : Tells e key first (log ++ [action]) := by
  have hwrites : writes key (log ++ [action]) = writes key log := by simp [writes, hwrite]
  have hreads : reads key (log ++ [action]) = reads key log := by simp [reads, hread]
  have haccesses : accesses key (log ++ [action]) = accesses key log := by
    simp [accesses, Action.access?, hread, hwrite]
  exact {
    key_eq := h.key_eq
    created_eq := h.created_eq
    version_eq := hwrites ▸ h.version_eq
    hits_eq := hreads ▸ h.hits_eq
    updated_eq := hwrites ▸ h.updated_eq
    accessed_eq := haccesses ▸ h.accessed_eq
    value_eq := hwrites ▸ h.value_eq
    expires_eq := hwrites ▸ h.expires_eq
    cost_eq := hwrites ▸ h.cost_eq
    size_eq := hwrites ▸ h.size_eq }

/-- One more operation adds what it does to the entry. -/
theorem Tells.act (h : Tells e key first log) (action : Action K V) :
    Tells (action.onEntry key e) key first (log ++ [action]) := by
  rw [Action.onEntry]
  cases hwrite : action.write? key with
  | some w => exact h.write hwrite
  | none =>
      cases hread : action.read? key with
      | some now => exact h.read hwrite hread
      | none => exact h.pass hwrite hread

/-! ## What an operation does to the entry of a key -/

/-- What is left of what there was is as it was. -/
theorem Loses.eq_of_some {f g : K → Option (Entry K V)} {went : List (Entry K V)}
    (h : Loses f went g) (hg : g key = some e) : f key = some e := by
  rw [h.after] at hg
  split at hg
  · exact absurd hg (Option.some_ne_none e).symm
  · exact hg

/-- A write to a key that is there leaves its entry rewritten, or nothing. -/
theorem Agrees.put_get? (h : s.Agrees) (w : Write V) (hget : s.get? key = some e)
    (hafter : (s.act (w.at key)).get? key = some e') : e' = w.onto e := by
  have hnew := s.new_put key w.value w.attributes w.expires w.now w.recordAccess
  obtain ⟨-, -, hloses⟩ := h.exact.put key w.value w.attributes w.expires w.now w.recordAccess
  have hwritten := hloses.eq_of_some hafter
  rw [Function.update_self, hnew, hget, Option.some.injEq] at hwritten
  by_cases hadmits : s.admits w.attributes.size = true
  · rw [← hwritten]
    exact if_pos hadmits
  · -- a write that can never fit leaves nothing of its key
    obtain ⟨-, -, hremoved⟩ := h.remove key
    have hput : s.act (w.at key) = (s.remove key).2 := by
      rw [Write.at, Store.act, Store.put, if_neg hadmits]
      rfl
    rw [hput, hremoved, Function.update_self] at hafter
    exact absurd hafter (Option.some_ne_none e').symm

/-- An operation on another key, or on none, changes nothing about an entry that stays. -/
theorem Agrees.get?_of_act (h : s.Agrees) (hkey : action.key? ≠ some key)
    (hafter : (s.act action).get? key = some e) : s.get? key = some e := by
  cases action with
  | put other value attributes expires now recordAccess =>
      obtain ⟨-, -, hloses⟩ := h.exact.put other value attributes expires now recordAccess
      have hne : key ≠ other := fun heq => hkey (congrArg some heq.symm)
      have hsame := hloses.eq_of_some hafter
      rwa [Function.update_of_ne hne] at hsame
  | touch other now =>
      obtain ⟨-, htouched⟩ := h.exact.touch other now
      have hne : key ≠ other := fun heq => hkey (congrArg some heq.symm)
      rwa [Store.act, htouched, Function.update_of_ne hne] at hafter
  | remove other => exact (h.exact.remove other).2.eq_of_some hafter
  | removeIf condition => exact (h.exact.removeIf condition).2.eq_of_some hafter
  | clear => exact h.exact.clear.2.eq_of_some hafter
  | trimTo maxEntries maxVolume => exact (h.exact.trimTo maxEntries maxVolume).eq_of_some hafter
  | setLimits maxEntries maxVolume =>
      exact (h.exact.setLimits maxEntries maxVolume).eq_of_some hafter

/-- An operation does to the entry of a key what it says, or takes it out. -/
theorem Agrees.act_get? (h : s.Agrees) (action : Action K V) (hget : s.get? key = some e)
    (hafter : (s.act action).get? key = some e') : e' = action.onEntry key e := by
  by_cases hkey : action.key? = some key
  · cases action with
    | put other value attributes expires now recordAccess =>
        obtain rfl : other = key := Option.some.inj hkey
        have hwrite := h.put_get? ⟨value, attributes, expires, now, recordAccess⟩ hget hafter
        exact hwrite.trans (Action.onEntry_write _ other e).symm
    | touch other now =>
        obtain rfl : other = key := Option.some.inj hkey
        obtain ⟨hanswer, htouched⟩ := h.exact.touch other now
        rw [Store.act, htouched, Function.update_self, hanswer, hget, Option.map_some,
          Option.some.injEq] at hafter
        rw [← hafter, Action.onEntry_touch]
    | remove other =>
        have hsame := (h.exact.remove other).2.eq_of_some hafter
        exact Option.some.inj (hsame.symm.trans hget)
    | removeIf | clear | trimTo | setLimits => exact absurd hkey (Option.some_ne_none key).symm
  · rw [Action.onEntry_of_key_ne hkey]
    exact Option.some.inj ((h.get?_of_act hkey hafter).symm.trans hget)

/-- A write to a new key leaves its first entry, or nothing. -/
theorem Agrees.put_get?_of_absent (h : s.Agrees) (w : Write V) (hget : s.get? key = none)
    (hafter : (s.act (w.at key)).get? key = some e) :
    e = .new key w.value w.attributes w.expires w.now := by
  have hnew := s.new_put key w.value w.attributes w.expires w.now w.recordAccess
  obtain ⟨-, -, hloses⟩ := h.exact.put key w.value w.attributes w.expires w.now w.recordAccess
  have hwritten := hloses.eq_of_some hafter
  rw [Function.update_self, hnew, hget, Option.some.injEq] at hwritten
  exact hwritten.symm

/-! ## Runs -/

theorem run_concat (s : Store K V) (actions : List (Action K V)) (action : Action K V) :
    s.run (actions ++ [action]) = (s.run actions).act action :=
  List.foldl_concat _ _ _ _

theorem contains_iff : s.contains key = true ↔ ∃ e, s.get? key = some e := by
  rw [contains, ← Option.isSome_iff_exists, get?, Option.isSome_map]

/-- As long as the key stays, its entry tells what has been done to it. -/
theorem Agrees.tells (h : s.Agrees) (hget : s.get? key = none) (first : Write V)
    (log : List (Action K V))
    (hstays : ∀ n ≤ log.length, (s.run (first.at key :: log.take n)).contains key = true) :
    ∃ e, (s.run (first.at key :: log)).get? key = some e ∧ Tells e key first log := by
  induction log using List.reverseRecOn with
  | nil =>
      obtain ⟨e, hafter⟩ := contains_iff.mp (hstays 0 (Nat.le_refl 0))
      obtain rfl := h.put_get?_of_absent first hget hafter
      exact ⟨_, hafter, tells_new key first⟩
  | append_singleton log action ih =>
      have hearlier : ∀ n ≤ log.length,
          (s.run (first.at key :: log.take n)).contains key = true := by
        intro n hn
        have hstay := hstays n (by rw [List.length_append]; omega)
        rwa [List.take_append_of_le_length hn] at hstay
      obtain ⟨e, hbefore, htells⟩ := ih hearlier
      have hlast := hstays (log ++ [action]).length (Nat.le_refl _)
      rw [List.take_length, ← List.cons_append, run_concat] at hlast
      obtain ⟨e', hafter⟩ := contains_iff.mp hlast
      have hreached := (h.run (first.at key :: log)).1
      obtain rfl := hreached.act_get? action hbefore hafter
      refine ⟨_, ?_, htells.act action⟩
      rw [← List.cons_append, run_concat, hafter]

/-- Over every run, at whatever times: where a write brings in a key that was not there, its
entry tells all that has been done to it since, as long as it stays.  An operation on another
key, or on none, changes nothing about an entry that is there before and after it. -/
theorem run_tells {p : Policy K} (hstart : p.Starts) (maxEntries maxVolume : Nat)
    (walk : Walk (Slot K V)) (before : List (Action K V)) :
    let s := (new p maxEntries maxVolume walk).run before
    (∀ key first log, s.contains key = false →
      (∀ n ≤ log.length, (s.run (first.at key :: log.take n)).contains key = true) →
      ∃ e, (s.run (first.at key :: log)).get? key = some e ∧ Tells e key first log) ∧
    ∀ key (action : Action K V) e e', action.key? ≠ some key → s.get? key = some e →
      (s.act action).get? key = some e' → e' = e := by
  intro s
  have h : s.Agrees := ((agrees_new hstart maxEntries maxVolume walk).run before).1
  constructor
  · intro key first log habsent hstays
    have hget : s.get? key = none := by
      rw [← Bool.not_eq_true, contains_iff] at habsent
      exact Option.eq_none_iff_forall_ne_some.mpr fun e he => habsent ⟨e, he⟩
    exact h.tells hget first log hstays
  · intro key action e e' hkey hget hafter
    exact Option.some.inj ((h.get?_of_act hkey hafter).symm.trans hget)

/-- The theorem at a store in which a key is read and written while the clock goes back, and
another key comes and goes. -/
theorem run_tells_backwards :
    let s := (new (PolicyChoice.build .lru) 2 10 : Store Nat Nat).run [.put 2 20 {} none 0 true]
    let first : Write Nat := ⟨10, { size := 3 }, some 90, 50, true⟩
    let log := [.touch 1 60, .put 2 21 {} none 55 true, .put 1 11 { size := 4 } none 40 true,
      .touch 1 30, .remove 2, .put 1 12 { size := 2 } (some 80) 70 false]
    (∃ e, (s.run (first.at 1 :: log)).get? 1 = some e ∧ Tells e 1 first log) ∧
      ((s.run (first.at 1 :: log)).get? 1).map (fun e => (e.created, e.version, e.hits)) =
        some (50, 3, 2) ∧
      ((s.run (first.at 1 :: log)).get? 1).map (fun e => (e.updated, e.accessed)) =
        some (70, 60) ∧
      ∃ e, (s.act (first.at 1)).get? 2 = some e ∧ e = .new 2 20 {} none 0 :=
  ⟨(run_tells (.builtIn .lru) 2 10 .plain _).1 1 _ _ (by decide +kernel) (by decide +kernel),
    by decide +kernel, by decide +kernel, .new 2 20 {} none 0, by decide +kernel,
    (run_tells (.builtIn .lru) 2 10 .plain [.put 2 20 {} none 0 true]).2 2
      (.put 1 10 { size := 3 } (some 90) 50 true) _ _ (by decide) (by decide +kernel)
      (by decide +kernel)⟩

end BoundedCache.Store
