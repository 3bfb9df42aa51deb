import BoundedCache.Proofs.Cache.Setting
import BoundedCache.Proofs.Store.Dating
import BoundedCache.Session

/-!
# One notion of a live entry

Seven operations look for an entry of a key that is not stale: three that have no effect on it,
two reads, and the two conditional writes.  Each of them makes the check for itself, and treats
a stale entry in its own way: it is passed over, or removed, or removed and written anew.

A cache that runs `Decides` all of them by one and the same entry.  Operations that call hooks
first find what these have left (`found`), and where hooks ask for nothing before a change,
that is what the cache holds now (`live?`).  The rule of expiration may be any function of the
entry and the time.
-/

namespace BoundedCache

variable {K V : Type} [DecidableEq K]

/-! ## What a change makes of a live entry -/

namespace Store

variable {s : Store K V} {x : Expiration K V} {key : K} {now : Nat} {e : Entry K V}

theorem live?_eq_some :
    s.live? x key now = some e ↔ s.get? key = some e ∧ x.isExpired e now = false := by
  simp [live?, Option.filter_eq_some_iff]

theorem live?_of_absent (hget : s.get? key = none) : s.live? x key now = none := by
  rw [live?, hget, Option.filter_none]

theorem live?_of_present (hget : s.get? key = some e) :
    s.live? x key now = if x.isExpired e now then none else some e := by
  rw [live?, hget, Option.filter_some]
  cases x.isExpired e now <;> rfl

end Store

namespace Change

variable {s : Store K V} {x : Expiration K V} {key : K} {now : Nat} {e : Entry K V}

/-- The stale entry of a key, as it is reported. -/
def expired (s : Store K V) (key : K) : List (Outcome K V) :=
  (s.get? key).toList.map fun e => .expire [e]

theorem lookup_answer (s : Store K V) (x : Expiration K V) (key : K) (now : Nat) :
    ((lookup x key).apply s now).answer = (s.live? x key now).map (·.access now) := by
  unfold lookup
  cases hget : s.get? key with
  | none => simp [hget, Store.live?_of_absent hget]
  | some e =>
      rw [Store.live?_of_present hget]
      simp only [hget]
      split <;> rfl

theorem putIfAbsent_of_live (hlive : s.live? x key now = some e) (value : V) :
    (putIfAbsent x key value).apply s now =
      { answer := some e, outcomes := [], store := s, gauged := false } := by
  obtain ⟨hget, hfresh⟩ := Store.live?_eq_some.1 hlive
  simp [putIfAbsent, hget, hfresh]

/-- Without a live entry the value is written, after a stale entry has gone. -/
theorem putIfAbsent_of_none (hnone : s.live? x key now = none) (value : V) :
    let (written, t) := (s.remove key).2.put key value {} (x.timeOf now none) now true
    (putIfAbsent x key value).apply s now =
      { answer := none, outcomes := expired s key ++ [.put .user written], store := t } := by
  cases hget : s.get? key with
  | none => simp [putIfAbsent, expired, hget, Store.remove_of_absent hget]
  | some e =>
      have hstale : x.isExpired e now = true := by
        rw [Store.live?_of_present hget] at hnone
        simpa using hnone
      simp [putIfAbsent, expired, hget, hstale]

theorem replace_of_live (hlive : s.live? x key now = some e) (value : V) :
    let (written, t) := s.put key value {} (x.timeOf now none) now true
    (replace x key value).apply s now =
      { answer := some e, outcomes := [.replace e written.new written.evicted], store := t } := by
  obtain ⟨hget, hfresh⟩ := Store.live?_eq_some.1 hlive
  have hold := s.old_put key value {} (x.timeOf now none) now true
  rw [hget] at hold
  simp [replace, hget, hfresh, hold]

/-- Without a live entry nothing is written, but a stale entry goes. -/
theorem replace_of_none (hnone : s.live? x key now = none) (value : V) :
    (replace x key value).apply s now =
      { answer := none, outcomes := expired s key, store := (s.remove key).2 } := by
  cases hget : s.get? key with
  | none => simp [replace, expired, hget, Store.remove_of_absent hget]
  | some e =>
      have hstale : x.isExpired e now = true := by
        rw [Store.live?_of_present hget] at hnone
        simpa using hnone
      simp [replace, expired, hget, hstale]

end Change

/-! ## Operations of a cache that runs -/

namespace Cache

variable {α : Type} {c : Cache K V}

/-- The entry of a key that is live now. -/
def live? (c : Cache K V) (key : K) : Option (Entry K V) :=
  c.store.live? c.expiration key c.clock

/-- The entry of a key that is live once the hooks have been told of the operation. -/
def found (c : Cache K V) (operation : Operation) (key : K) : Option (Entry K V) :=
  (c.announced operation).store.live? c.expiration key c.clock

theorem found_eq_live? (h : ∀ hook ∈ c.hooks.hooks, hook.Waits) (operation : Operation)
    (key : K) : c.found operation key = c.live? key := by
  rw [found, announced_eq h]
  rfl

omit [DecidableEq K] in
theorem running_of_running (h : c.lifecycle = .running) (strict : Bool) :
    c.running strict = (.ok true, c) := by
  have hready : c.lifecycle ≠ .ready := by
    rw [h]
    exact nofun
  rw [running, Lifecycle.lazyStart, if_neg hready, Lifecycle.availability, if_pos h]

omit [DecidableEq K] in
/-- A start that succeeds leaves the cache running. -/
theorem running_of_started {d : Cache K V} (h : c.running true = (.ok true, d)) :
    d.lifecycle = .running := by
  have havailable : ∀ state : Lifecycle, state.availability true = .ok true → state = .running := by
    intro state
    cases state <;> simp [Lifecycle.availability]
  unfold running at h
  split at h
  · rename_i next hstart
    obtain rfl : next = d := (Prod.mk.inj h).2
    unfold Lifecycle.lazyStart at hstart
    split at hstart
    · split at hstart
      · obtain ⟨hanswer, rfl⟩ := Prod.mk.inj hstart
        exact havailable _ hanswer
      · exact nomatch (Prod.mk.inj hstart).1
    · obtain ⟨hanswer, rfl⟩ := Prod.mk.inj hstart
      exact havailable _ hanswer
  · rename_i answer next hother hstart
    obtain ⟨rfl, -⟩ := Prod.mk.inj h
    exact absurd rfl hother

omit [DecidableEq K] in
theorem whenRunning_of_running (h : c.lifecycle = .running)
    (operation : Cache K V → α × Cache K V) :
    c.whenRunning operation = (operation c).map .ok id := by
  rw [whenRunning, running_of_running h]

omit [DecidableEq K] in
theorem ifRunning_of_running (h : c.lifecycle = .running) (idle : α)
    (operation : Cache K V → α × Cache K V) : c.ifRunning idle operation = operation c := by
  rw [ifRunning, running_of_running h]

/-- A change, once it is known what becomes of the store. -/
theorem perform_of_apply {change : Change K V α} {operation : Operation}
    {t : Transaction K V α} (hoperation : change.operation = operation)
    (happly : change.apply (c.announced operation).store c.clock = t) :
    c.perform change = (t.answer,
      ((c.announced operation).stored t.store t.gauged).told ⟨operation, c.clock⟩ t.outcomes) := by
  subst hoperation happly
  exact c.perform_eq_told change

/-! ### Conditional writes -/

section

variable {key : K} {e : Entry K V}

theorem putIfAbsent_of_found (h : c.lifecycle = .running) (hfound : c.found .put key = some e)
    (value : V) : c.putIfAbsent key value = (.ok (some e), c.announced .put) := by
  rw [putIfAbsent, whenRunning_of_running h,
    perform_of_apply rfl (Change.putIfAbsent_of_live hfound value)]
  rfl

theorem putIfAbsent_of_none (h : c.lifecycle = .running) (hnone : c.found .put key = none)
    (value : V) :
    let d := c.announced .put
    let (written, t) := (d.store.remove key).2.put key value {}
      (c.expiration.timeOf c.clock none) c.clock true
    c.putIfAbsent key value = (.ok none,
      (d.stored t true).told ⟨.put, c.clock⟩
        (Change.expired d.store key ++ [.put .user written])) := by
  rw [putIfAbsent, whenRunning_of_running h,
    perform_of_apply rfl (Change.putIfAbsent_of_none hnone value)]
  rfl

theorem replace_of_found (h : c.lifecycle = .running) (hfound : c.found .replace key = some e)
    (value : V) :
    let d := c.announced .replace
    let (written, t) := d.store.put key value {} (c.expiration.timeOf c.clock none) c.clock true
    c.replace key value = (.ok (some e),
      (d.stored t true).told ⟨.replace, c.clock⟩ [.replace e written.new written.evicted]) := by
  rw [replace, whenRunning_of_running h,
    perform_of_apply rfl (Change.replace_of_live hfound value)]
  rfl

theorem replace_of_none (h : c.lifecycle = .running) (hnone : c.found .replace key = none)
    (value : V) :
    let d := c.announced .replace
    c.replace key value = (.ok none,
      (d.stored (d.store.remove key).2 true).told ⟨.replace, c.clock⟩
        (Change.expired d.store key)) := by
  rw [replace, whenRunning_of_running h,
    perform_of_apply rfl (Change.replace_of_none hnone value)]
  rfl

end

/-! ### Reads -/

theorem read_eq_found (c : Cache K V) (key : K) :
    (c.perform (.lookup c.expiration key)).1 = (c.found .get key).map (·.access c.clock) :=
  (congrArg Prod.fst (c.perform_eq_told _)).trans (Change.lookup_answer _ _ _ _)

theorem peek_of_running (h : c.lifecycle = .running) (key : K) : (c.peek key).1 = c.live? key := by
  rw [peek, ifRunning_of_running h]
  rfl

theorem contains_of_running (h : c.lifecycle = .running) (key : K) :
    (c.contains key).1 = (c.live? key).isSome := by
  rw [contains, ifRunning_of_running h]
  rfl

theorem getIfPresent_of_running (h : c.lifecycle = .running) (key : K) :
    (c.getIfPresent key).1 = .ok ((c.found .get key).map (·.access c.clock)) := by
  rw [getIfPresent, whenRunning_of_running h]
  exact congrArg Except.ok (c.read_eq_found key)

section

variable [KeyText K]

/-- A request for a load never has an entry from the start. -/
theorem requestLoad_ne_ready (c : Cache K V) (key : K) (attributes : Attributes) (forced : Bool)
    (entry : Option (Entry K V)) :
    (c.requestLoad key attributes forced).1 ≠ .ready (.ok entry) := by
  unfold requestLoad
  split
  · exact nofun
  · split <;> exact nofun

/-- A load is answered at once with a live entry, or else is asked for. -/
theorem load_of_running (h : c.lifecycle = .running) (key : K) (attributes : Attributes) :
    c.load key attributes =
      match c.live? key with
      | some entry => (.ready (.ok (some entry)), c)
      | none => c.requestLoad key attributes false := by
  rw [load, running_of_running h]
  rfl

/-- A read that finds no live entry asks for a load if there is a loader. -/
theorem get_of_running (h : c.lifecycle = .running) (key : K) (attributes : Attributes) :
    let read := c.perform (.lookup c.expiration key)
    c.get key attributes =
      match read.1 with
      | some entry => (.ready (.ok (some entry)), read.2)
      | none =>
          if read.2.loader.isNone then (.ready (.ok none), read.2)
          else read.2.requestLoad key attributes false := by
  rw [get, running_of_running h]
  dsimp only
  rcases c.perform (.lookup c.expiration key) with ⟨entry, c'⟩
  cases entry <;> rfl

/-- A read that asks for a load if need be answers at once with the entry that it finds. -/
theorem get_eq_ready_iff (h : c.lifecycle = .running) (key : K) (attributes : Attributes)
    (e : Entry K V) : (c.get key attributes).1 = .ready (.ok (some e)) ↔
      (c.found .get key).map (·.access c.clock) = some e := by
  simp only [get_of_running h, read_eq_found]
  cases (c.found .get key).map (·.access c.clock) with
  | none =>
      dsimp only
      split
      · simp
      · simpa using requestLoad_ne_ready _ key attributes false (some e)
  | some entry => simp

/-! ## What the operations make of the entry they find -/

/-- All operations on a key go by the entry that is live when they look. -/
structure Decides (c : Cache K V) (key : K) (value : V) (attributes : Attributes) : Prop where
  live_iff : ∀ e, c.live? key = some e ↔
    c.store.get? key = some e ∧ c.expiration.isExpired e c.clock = false
  peek_eq : (c.peek key).1 = c.live? key
  contains_eq : (c.contains key).1 = (c.live? key).isSome
  load_iff : ∀ e, (c.load key attributes).1 = .ready (.ok (some e)) ↔ c.live? key = some e
  /-- Reads answer the entry with this access in it. -/
  getIfPresent_eq :
    (c.getIfPresent key).1 = .ok ((c.found .get key).map (·.access c.clock))
  get_iff : ∀ e, (c.get key attributes).1 = .ready (.ok (some e)) ↔
    (c.found .get key).map (·.access c.clock) = some e
  access_keeps : ∀ e : Entry K V,
    (e.access c.clock).value = e.value ∧ (e.access c.clock).version = e.version
  putIfAbsent_eq : (c.putIfAbsent key value).1 = .ok (c.found .put key)
  replace_eq : (c.replace key value).1 = .ok (c.found .replace key)
  /-- Where there is a live entry, the one write does nothing, and the other is made. -/
  putIfAbsent_of_found : ∀ e, c.found .put key = some e →
    (c.putIfAbsent key value).2 = c.announced .put
  replace_of_found : ∀ e, c.found .replace key = some e →
    let d := c.announced .replace
    let (written, t) := d.store.put key value {} (c.expiration.timeOf c.clock none) c.clock true
    (c.replace key value).2 =
      (d.stored t true).told ⟨.replace, c.clock⟩ [.replace e written.new written.evicted]
  /-- Where there is none, it is the other way round, and a stale entry goes either way. -/
  putIfAbsent_of_none : c.found .put key = none →
    let d := c.announced .put
    let (written, t) := (d.store.remove key).2.put key value {}
      (c.expiration.timeOf c.clock none) c.clock true
    (c.putIfAbsent key value).2 =
      (d.stored t true).told ⟨.put, c.clock⟩
        (Change.expired d.store key ++ [.put .user written])
  replace_of_none : c.found .replace key = none →
    let d := c.announced .replace
    (c.replace key value).2 =
      (d.stored (d.store.remove key).2 true).told ⟨.replace, c.clock⟩
        (Change.expired d.store key)
  /-- The entry that is found is the live one, if hooks ask for nothing before a change. -/
  found_eq : (∀ hook ∈ c.hooks.hooks, hook.Waits) →
    ∀ operation, c.found operation key = c.live? key

/-- Whatever the rule of expiration, the operations on a cache that runs agree on which entry of
a key is live, and just one of the two conditional writes writes. -/
theorem decides_of_running (hrunning : c.lifecycle = .running) (key : K) (value : V)
    (attributes : Attributes) : c.Decides key value attributes where
  live_iff e := Store.live?_eq_some
  peek_eq := peek_of_running hrunning key
  contains_eq := contains_of_running hrunning key
  load_iff e := by
    rw [load_of_running hrunning]
    cases c.live? key with
    | none => simpa using c.requestLoad_ne_ready key attributes false (some e)
    | some entry => simp
  getIfPresent_eq := getIfPresent_of_running hrunning key
  get_iff := get_eq_ready_iff hrunning key attributes
  access_keeps e := ⟨rfl, rfl⟩
  putIfAbsent_eq := by
    cases hfound : c.found .put key with
    | none => exact congrArg Prod.fst (putIfAbsent_of_none hrunning hfound value)
    | some e => exact congrArg Prod.fst (putIfAbsent_of_found hrunning hfound value)
  replace_eq := by
    cases hfound : c.found .replace key with
    | none => exact congrArg Prod.fst (replace_of_none hrunning hfound value)
    | some e => exact congrArg Prod.fst (replace_of_found hrunning hfound value)
  putIfAbsent_of_found e hfound :=
    congrArg Prod.snd (putIfAbsent_of_found hrunning hfound value)
  replace_of_found e hfound := congrArg Prod.snd (replace_of_found hrunning hfound value)
  putIfAbsent_of_none hnone := congrArg Prod.snd (putIfAbsent_of_none hrunning hnone value)
  replace_of_none hnone := congrArg Prod.snd (replace_of_none hrunning hnone value)
  found_eq hwaits operation := found_eq_live? hwaits operation key

end

/-- The theorem at an entry that a rule of one's own calls stale once it has been read, in a
cache with a hook that writes another entry after each read. -/
theorem decides_of_running_read :
    let b : Builder String Nat :=
      { executor := some {}
        expiration := some (.custom (fun _ _ => none) fun e _ => decide (1 ≤ e.hits))
        hooks := [.commanding "again" .event (some .get) fun _ => .put "b" 3] }
    ∃ c, b.build = .ok c ∧
      let s := Session.live ⟨c, []⟩ [.request (.put "a" 1 {}), .request (.getIfPresent "a")]
      s.cache.lifecycle = .running ∧ s.cache.store.contains "a" = true ∧
        s.cache.live? "a" = none ∧ (s.cache.live? "b").isSome = true ∧
        s.cache.Decides "a" 2 {} := by
  refine ⟨_, rfl, ?_⟩
  intro s
  have hrunning : s.cache.lifecycle = .running := rfl
  exact ⟨hrunning, by decide +kernel, by decide +kernel, by decide +kernel,
    decides_of_running hrunning "a" 2 {}⟩

end Cache

end BoundedCache
