import BoundedCache.Proofs.Cache.Advancing
import BoundedCache.Proofs.Cache.Answering
import BoundedCache.Proofs.Cache.Cancelling
import BoundedCache.Proofs.Cache.Joining

/-!
# Asking for several loads

Keys are asked for one after the other, and much can happen between two of them: the load of one
key may run at once, its value may push the entry of another key out, and the hooks that are
called may do anything to the cache.  Still each key is served in its turn (`Serving`): by its
entry if that is live then, else by the load that is pending for it or that begins for it, unless
the cache has been shut down meanwhile.

What is said of the turn of one key (`Attends`) adds up to what is said of all (`Gathers`).  The
loads that begin are loads that were asked for, one for each key at most, and no others call the
loader meanwhile.  Whatever happens later, an entry that a key is answered with is one of that
key, so that the entries are those of different keys (`Gathers.enumerates`).
-/

namespace BoundedCache

variable {K V : Type} [DecidableEq K]

/-- A load that has begun is the one that was asked for. -/
theorem LoadDesk.Begins.handle_eq {ρ : Type} {d d' : LoadDesk K V ρ} {task : LoadTask K V}
    {ofError : CacheError → ρ} {launch : LoadDesk.Launch} {cancelledAnswer : ρ}
    {handles started : List (LoadHandle K)} (hbegins : d.Begins task ofError launch d')
    (hfree : d.coordinator.pending? task.handle.key = none)
    (hid : task.handle.id = d.coordinator.nextId)
    (hworks : d.Works cancelledAnswer handles started) {handle : LoadHandle K}
    (hcurrent : d'.coordinator.isCurrent handle.key handle.id = true)
    (hle : d.coordinator.nextId ≤ handle.id) : handle = task.handle := by
  have hbegun : (d.coordinator.begin task.handle.key).isCurrent handle.key handle.id = true →
      handle = task.handle := by
    intro hpending
    obtain ⟨load, hload, hnumber⟩ := Coordinator.isCurrent_iff.mp hpending
    rw [Coordinator.pending?_begin hfree] at hload
    split at hload
    · rename_i hkey
      rw [← Option.some.inj hload] at hnumber
      obtain ⟨key, id⟩ := handle
      obtain rfl : key = task.handle.key := hkey
      obtain rfl : d.coordinator.nextId = id := hnumber
      rw [← hid]
    · have hlt := hworks.serves.pending_lt hload
      rw [hnumber] at hlt
      exact absurd hlt (Nat.not_lt_of_le hle)
  cases hbegins with
  | hired launch executor => exact hbegun hcurrent
  | turnedAway executor =>
      exact hbegun ((Coordinator.proceeds_complete _ _ _ _).current _ _ hcurrent)

namespace Cache

variable [KeyText K] {c c' d e : Cache K V} {key : K} {keys : List K} {future : Future K V}
  {futures : List (Future K V)}

/-- No load begins in a turn. -/
theorem Turn.proceeds {ticket : Ticket} (h : Turn c ticket c') :
    c.desk.coordinator.Proceeds c'.desk.coordinator := by
  have hsettled : ∀ {old task : LoadTask K V} {phase : Phase V} {d : Cache K V}
      (outcome : LoadOutcome V), Goes c old d { task with phase := phase } →
      c.desk.coordinator.Proceeds (d.settle task outcome).desk.coordinator := by
    intro old task phase d outcome hgoes
    obtain ⟨-, state, answer, hdesk⟩ := d.settle_desk task outcome
    rw [hdesk, hgoes.desk_eq]
    have hstate : c.desk.coordinator.Proceeds { c.desk.coordinator with lifecycle := state } :=
      ⟨fun _ _ => id, List.suffix_rfl⟩
    exact hstate.trans (Coordinator.proceeds_complete _ _ _ _)
  cases h with
  | idle hidle => exact .refl _
  | aborted hmem hid hcancelled => exact Coordinator.proceeds_complete _ _ _ _
  | waits h hid executor =>
      rw [h.desk_eq]
      exact .refl _
  | ends h hid => exact hsettled _ h
  | refused h hid hblocking => exact hsettled _ h
  | @late orphan d h hid hlive =>
      show c.desk.coordinator.Proceeds d.desk.coordinator
      rw [h.desk_eq]
      exact .refl _

/-- No task is dropped in a turn. -/
theorem Turn.orphans_subset {ticket : Ticket} (h : Turn c ticket c') :
    c'.desk.orphans ⊆ c.desk.orphans := by
  have hsettled : ∀ {old task : LoadTask K V} {phase : Phase V} {d : Cache K V}
      (outcome : LoadOutcome V), Goes c old d { task with phase := phase } →
      (d.settle task outcome).desk.orphans ⊆ c.desk.orphans := by
    intro old task phase d outcome hgoes
    obtain ⟨-, state, answer, hdesk⟩ := d.settle_desk task outcome
    rw [hdesk, hgoes.desk_eq]
    exact List.Subset.refl _
  cases h with
  | idle hidle => exact List.Subset.refl _
  | aborted hmem hid hcancelled => exact List.Subset.refl _
  | waits h hid executor =>
      rw [h.desk_eq]
      exact List.Subset.refl _
  | ends h hid => exact hsettled _ h
  | refused h hid hblocking => exact hsettled _ h
  | @late orphan d h hid hlive =>
      show (d.desk.dropOrphan orphan.handle.id).orphans ⊆ _
      rw [h.desk_eq]
      exact List.filter_sublist.subset

/-! ## How keys are served -/

/-- The keys have been served one after the other. -/
inductive Serving : Cache K V → List K → List (Future K V) → Cache K V → Prop where
  | nil (c : Cache K V) : Serving c [] [] c
  | live {c d : Cache K V} {key : K} {keys : List K} {futures : List (Future K V)}
      {entry : Entry K V} (hrunning : c.lifecycle = .running) (hlive : c.live? key = some entry)
      (hrest : Serving c keys futures d) :
      Serving c (key :: keys) (.ready (.ok (some entry)) :: futures) d
  | load {c c' d : Cache K V} {key : K} {keys : List K} {future : Future K V}
      {futures : List (Future K V)} (hrunning : c.lifecycle = .running)
      (hnone : c.live? key = none) (hasked : Asked c key {} false (future, c'))
      (hrest : Serving c' keys futures d) : Serving c (key :: keys) (future :: futures) d
  /-- The cache has been shut down by then, so that there may be something to drain. -/
  | unavailable {c d : Cache K V} {key : K} {keys : List K} {futures : List (Future K V)}
      (hdown : c.lifecycle.isDown = true) (hrest : Serving c.mayDrain keys futures d) :
      Serving c (key :: keys) (.ready (.error (.unavailable c.lifecycle.name)) :: futures) d

theorem Called.serving_loadEach (h : c.Called)
    (hstate : c.lifecycle = .running ∨ c.lifecycle.isDown = true) (keys : List K) :
    Serving c keys (c.loadEach keys).1 (c.loadEach keys).2 := by
  induction keys generalizing c with
  | nil => exact .nil c
  | cons key keys ih =>
      have hacts := c.acts_load key {}
      have hrest := ih (hacts.keeps_called h).1
        (Lifecycle.running_or_isDown hstate hacts.moves.forward)
      rw [loadEach]
      rcases hstate with hrunning | hdown
      · cases hlive : c.live? key with
        | some entry =>
            rw [load_of_live hrunning hlive] at hrest ⊢
            exact .live hrunning hlive hrest
        | none => exact .load hrunning hlive (asked_load hrunning h.loader hlive {}) hrest
      · rw [load_of_down hdown] at hrest ⊢
        exact .unavailable hdown hrest

/-! ## The turn of one key -/

/-- What there is to say of the turn of one key, which `future` has come of. -/
structure Attends (c : Cache K V) (key : K) (future : Future K V) (c' : Cache K V) : Prop where
  acts : Acts c c'
  handle_key : ∀ handle, future = .load handle → handle.key = key
  /-- A load that may call the loader now and had not begun before is the one that was asked
  for. -/
  begun : ∀ handle : LoadHandle K, c'.MayCall handle →
    c.desk.coordinator.nextId ≤ handle.id → future = .load handle
  called : ∀ handle ∈ c'.loaderCalls, handle ∈ c.loaderCalls ∨
    c.desk.coordinator.nextId ≤ handle.id ∧ future = .load handle
  keyed : ∀ e, Acts c' e → ∀ entry, e.answer? future = some (.ok (some entry)) → entry.key = key

omit [KeyText K] in
theorem Called.not_isCurrent_of_le (h : c.Called) {handle : LoadHandle K}
    (hle : c.desk.coordinator.nextId ≤ handle.id) :
    ¬ c.desk.coordinator.isCurrent handle.key handle.id = true := by
  intro hcurrent
  obtain ⟨task, hmem, hhandle⟩ := h.desk.exists_task hcurrent
  exact absurd (hhandle ▸ h.desk.id_lt hmem) (Nat.not_lt_of_le hle)

omit [KeyText K] in
/-- A load that is not among those that have begun cannot call the loader. -/
theorem Called.not_mayCall_of_le (h : c.Called) {handle : LoadHandle K}
    (hle : c.desk.coordinator.nextId ≤ handle.id) : ¬ c.MayCall handle := by
  rintro (hcurrent | ⟨⟨orphan, horphan, rfl⟩, -⟩)
  · exact h.not_isCurrent_of_le hle hcurrent
  · obtain ⟨handles, started, hworks, -, horphans⟩ := h.desk.works
    exact absurd (hworks.serves.id_lt _ (horphans orphan horphan)) (Nat.not_lt_of_le hle)

omit [KeyText K] in
/-- It is a matter of the pending loads, the jobs that nobody waits for, and the flags. -/
theorem MayCall.mono (h : c'.MayCall handle) 
    (hcurrent : c'.desk.coordinator.isCurrent handle.key handle.id = true →
      c.desk.coordinator.isCurrent handle.key handle.id = true)
    (horphans : c'.desk.orphans ⊆ c.desk.orphans)
    (hcancelled : c'.desk.coordinator.cancelled = c.desk.coordinator.cancelled) :
    c.MayCall handle := by
  refine h.imp hcurrent fun ⟨⟨orphan, horphan, hhandle⟩, hunflagged⟩ =>
    ⟨⟨orphan, horphans horphan, hhandle⟩, fun hflag => hunflagged ?_⟩
  rw [flagged_iff] at hflag ⊢
  rwa [hcancelled]

/-- A key whose answer is there from the start takes no load. -/
theorem Called.attends_of_ready (h : c.Called) (hacts : Acts c c') (hsame : Undisturbed c c')
    {answer : Answer K V} (hkey : ∀ entry, answer = .ok (some entry) → entry.key = key) :
    Attends c key (.ready answer) c' where
  acts := hacts
  handle_key _ heq := nomatch heq
  begun handle hmay hle := by
    obtain ⟨⟨state, hdesk⟩, -⟩ := hsame
    refine absurd (hmay.mono (c := c) ?_ ?_ ?_) (h.not_mayCall_of_le hle)
    all_goals rw [hdesk]
    · exact id
    · exact List.Subset.refl _
  called handle hmem := by
    rw [hsame.2] at hmem
    exact .inl hmem
  keyed e _ entry hanswer := hkey entry (Option.some.inj hanswer)

theorem Called.attends_of_joined (h : c.Called) {load : PendingLoad}
    (hload : c.desk.coordinator.pending? key = some load) :
    let joined := { c with
      desk := { c.desk with coordinator := c.desk.coordinator.recount key (· + 1) } }
    Acts c joined → Attends c key (.load ⟨key, load.id⟩) joined := by
  intro joined hacts
  have hcalled := (hacts.keeps_called h).1
  constructor
  case acts => exact hacts
  case handle_key =>
    intro handle heq
    cases heq
    rfl
  case begun =>
    intro handle hmay hle
    refine absurd (hmay.mono (c := c) (fun hcurrent => ?_) (List.Subset.refl _) rfl)
      (h.not_mayCall_of_le hle)
    rwa [Coordinator.isCurrent_recount] at hcurrent
  case called => exact fun handle hmem => .inl hmem
  case keyed =>
    intro e hlater entry hanswer
    refine hlater.key_of_answered hcalled ⟨key, load.id⟩ ?_ hanswer
    rw [Coordinator.isCurrent_recount]
    exact Coordinator.isCurrent_iff.mpr ⟨load, hload, rfl⟩

section

variable {attributes : Attributes} {forced : Bool} {launch : LoadDesk.Launch}
  {desk : LoadDesk K V (Answer K V)} (h : c.Called)
  (hfree : c.desk.coordinator.pending? key = none)
  (hbegins : c.desk.Begins (c.desk.newTask key attributes forced none) .error launch desk)
include h hfree hbegins

omit [KeyText K] in
/-- Of the loads that may call the loader once a load has begun, that one is new. -/
theorem Called.future_of_begins {handle : LoadHandle K}
    (hmay : ({ c with desk := desk } : Cache K V).MayCall handle)
    (hle : c.desk.coordinator.nextId ≤ handle.id) :
    (.load ⟨key, c.desk.coordinator.nextId⟩ : Future K V) = .load handle := by
  obtain ⟨handles, started, hworks, -, horphans⟩ := h.desk.works
  rcases hmay with hcurrent | ⟨⟨orphan, horphan, rfl⟩, -⟩
  · rw [hbegins.handle_eq hfree rfl hworks hcurrent hle]
    rfl
  · have hold : orphan ∈ c.desk.orphans := by
      cases hbegins with
      | hired launch executor => exact horphan
      | turnedAway executor => exact horphan
    exact absurd (hworks.serves.id_lt _ (horphans orphan hold)) (Nat.not_lt_of_le hle)

/-- The load that begins is answered with an entry of its key, or with none. -/
theorem Called.keyed_of_begins (hacts : Acts { c with desk := desk } e) {entry : Entry K V}
    (hanswer : e.answer? (.load ⟨key, c.desk.coordinator.nextId⟩) = some (.ok (some entry))) :
    entry.key = key := by
  have hbegun : ({ c with desk := desk } : Cache K V).Called :=
    ⟨h.loader, h.desk.begins hbegins hfree rfl rfl⟩
  have hcurrent : (c.desk.coordinator.begin key).isCurrent key c.desk.coordinator.nextId = true :=
    Coordinator.isCurrent_iff.mpr
      ⟨_, (Coordinator.pending?_begin hfree key).trans (if_pos rfl), rfl⟩
  cases hbegins with
  | hired launch executor => exact hacts.key_of_answered hbegun ⟨key, _⟩ hcurrent hanswer
  | turnedAway executor =>
      have hdropped := Coordinator.answer?_complete hcurrent
        (Except.error CacheError.dropped : Answer K V)
      obtain ⟨hlater, hcontinues⟩ := Acts.keeps_called hacts hbegun
      have hstays := hcontinues.desk.answer?_eq hlater.desk hdropped
      exact nomatch hstays.symm.trans hanswer

theorem Called.attends_of_later (hacts : Acts c { c with desk := desk }) :
    Attends c key (.load ⟨key, c.desk.coordinator.nextId⟩) { c with desk := desk } := by
  constructor
  case acts => exact hacts
  case handle_key =>
    intro handle heq
    cases heq
    rfl
  case begun => exact fun handle => h.future_of_begins hfree hbegins
  case called => exact fun handle hmem => .inl hmem
  case keyed =>
    intro e hlater entry hanswer
    exact h.keyed_of_begins hfree hbegins hlater hanswer

/-- A load that runs at once may call the loader, and no other does meanwhile. -/
theorem Called.attends_of_now :
    let run := { c with desk := desk }.runTicket (.task c.desk.coordinator.nextId)
    Acts c run → Attends c key (.load ⟨key, c.desk.coordinator.nextId⟩) run := by
  intro run hacts
  have hengaged := hbegins.engaged hfree rfl h.desk.engaged
  have hturn := turn_runTicket (c := { c with desk := desk }) hengaged
    (.task c.desk.coordinator.nextId)
  constructor
  case acts => exact hacts
  case handle_key =>
    intro handle heq
    cases heq
    rfl
  case begun =>
    intro handle hmay hle
    exact h.future_of_begins hfree hbegins
      (hmay.mono (hturn.proceeds.current _ _) hturn.orphans_subset hturn.cancelled_eq) hle
  case called =>
    intro handle hmem
    rcases hturn.calls with heq | ⟨caller, hid, hmay, heq⟩
    · rw [heq] at hmem
      exact .inl hmem
    · rw [heq] at hmem
      rcases List.mem_cons.mp hmem with rfl | hmem
      · have hle := Nat.le_of_eq hid.symm
        exact .inr ⟨hle, h.future_of_begins hfree hbegins hmay hle⟩
      · exact .inl hmem
  case keyed =>
    intro e hlater entry hanswer
    exact h.keyed_of_begins hfree hbegins ((Act.turn _).acts.trans hlater) hanswer

end

theorem Called.attends_of_asked (h : c.Called) {attributes : Attributes} {forced : Bool}
    (hacts : Acts c c') (hasked : Asked c key attributes forced (future, c')) :
    Attends c key future c' := by
  generalize hrequest : (future, c') = request at hasked
  cases hasked with
  | joined hload =>
      cases hrequest
      exact h.attends_of_joined hload hacts
  | unavailable hfree hdown =>
      cases hrequest
      exact h.attends_of_ready hacts ⟨.of_desk rfl, rfl⟩ nofun
  | @started launch desk hfree hup hbegins =>
      cases launch with
      | later =>
          cases hrequest
          exact h.attends_of_later hfree hbegins hacts
      | now =>
          cases hrequest
          exact h.attends_of_now hfree hbegins hacts

theorem Called.attends_load (h : c.Called)
    (hstate : c.lifecycle = .running ∨ c.lifecycle.isDown = true) (key : K) :
    Attends c key (c.load key {}).1 (c.load key {}).2 := by
  have hacts := c.acts_load key {}
  rcases hstate with hrunning | hdown
  · cases hlive : c.live? key with
    | some entry =>
        rw [load_of_live hrunning hlive] at hacts ⊢
        refine h.attends_of_ready hacts ⟨.of_desk rfl, rfl⟩ fun other heq => ?_
        cases heq
        exact Store.key_of_get? (Store.live?_eq_some.mp hlive).1
    | none => exact h.attends_of_asked hacts (asked_load hrunning h.loader hlive {})
  · rw [load_of_down hdown] at hacts ⊢
    exact h.attends_of_ready hacts ⟨c.sameLoads_mayDrain, rfl⟩ nofun

/-! ## All keys -/

/-- What there is to say of all keys, which have been asked for one after the other. -/
structure Gathers (c : Cache K V) (keys : List K) (futures : List (Future K V)) (d : Cache K V) :
    Prop where
  acts : Acts c d
  length_eq : keys.length = futures.length
  handle_key : ∀ key handle, (key, .load handle) ∈ keys.zip futures → handle.key = key
  begun : ∀ handle : LoadHandle K, d.MayCall handle →
    c.desk.coordinator.nextId ≤ handle.id → (handle.key, .load handle) ∈ keys.zip futures
  called : ∀ handle ∈ d.loaderCalls, handle ∈ c.loaderCalls ∨
    c.desk.coordinator.nextId ≤ handle.id ∧ (handle.key, .load handle) ∈ keys.zip futures
  keyed : ∀ e, Acts d e → ∀ key future, (key, future) ∈ keys.zip futures →
    ∀ entry, e.answer? future = some (.ok (some entry)) → entry.key = key

/-- One key more. -/
theorem Attends.gathers (hfirst : Attends c key future c') (hcalled : c'.Called)
    (hrest : Gathers c' keys futures d) (hnext : Continues c c') :
    Gathers c (key :: keys) (future :: futures) d where
  acts := hfirst.acts.trans hrest.acts
  length_eq := congrArg (· + 1) hrest.length_eq
  handle_key other handle hmem := by
    rcases List.mem_cons.mp hmem with heq | hmem
    · obtain ⟨rfl, hfuture⟩ := Prod.mk.inj heq
      exact hfirst.handle_key handle hfuture.symm
    · exact hrest.handle_key other handle hmem
  begun handle hmay hle := by
    by_cases hlate : c'.desk.coordinator.nextId ≤ handle.id
    · exact List.mem_cons_of_mem _ (hrest.begun handle hmay hlate)
    · have hbefore := hrest.acts.mayCall hcalled (Nat.lt_of_not_le hlate) hmay
      have hfuture := hfirst.begun handle hbefore hle
      rw [hfirst.handle_key handle hfuture, hfuture]
      exact List.mem_cons_self
  called handle hmem := by
    rcases hrest.called handle hmem with hmem | ⟨hle, hzip⟩
    · refine (hfirst.called handle hmem).imp_right fun ⟨hle, hfuture⟩ => ⟨hle, ?_⟩
      rw [hfirst.handle_key handle hfuture, hfuture]
      exact List.mem_cons_self
    · exact .inr ⟨Nat.le_trans hnext.desk.nextId_le hle, List.mem_cons_of_mem _ hzip⟩
  keyed e hlater other answered hmem entry hanswer := by
    rcases List.mem_cons.mp hmem with heq | hmem
    · obtain ⟨rfl, rfl⟩ := Prod.mk.inj heq
      exact hfirst.keyed e (hrest.acts.trans hlater) entry hanswer
    · exact hrest.keyed e hlater other answered hmem entry hanswer

theorem Called.gathers_loadEach (h : c.Called)
    (hstate : c.lifecycle = .running ∨ c.lifecycle.isDown = true) (keys : List K) :
    Gathers c keys (c.loadEach keys).1 (c.loadEach keys).2 := by
  induction keys generalizing c with
  | nil =>
      refine ⟨.refl c, rfl, fun _ _ => nofun, fun handle hmay hle => ?_,
        fun handle hmem => .inl hmem, fun _ _ _ _ => nofun⟩
      exact absurd hmay (h.not_mayCall_of_le hle)
  | cons key keys ih =>
      have hfirst := h.attends_load hstate key
      obtain ⟨hcalled, hnext⟩ := hfirst.acts.keeps_called h
      have hthen := Lifecycle.running_or_isDown hstate hfirst.acts.moves.forward
      exact hfirst.gathers hcalled (ih hcalled hthen) hnext

/-! ## How often the loader is called -/

/-- How often the loader has been called for a key by loads with numbers from `first` up to
`last`. -/
def callsFor (c : Cache K V) (first last : Nat) (key : K) : Nat :=
  c.loaderCalls.countP fun handle => handle.key = key ∧ first ≤ handle.id ∧ handle.id < last

/-- Who calls the loader has a load that might call it before, or a new one. -/
theorem Acts.called (h : Acts c d) (hcalled : c.Called) {handle : LoadHandle K}
    (hmem : handle ∈ d.loaderCalls) :
    handle ∈ c.loaderCalls ∨ c.MayCall handle ∨ c.desk.coordinator.nextId ≤ handle.id := by
  induction h with
  | refl => exact .inl hmem
  | tail hacts hlast ih =>
      obtain ⟨hlater, hcontinues⟩ := Acts.keeps_called hacts hcalled
      obtain ⟨calls, heq, hcalls⟩ := hlast.callsPending hlater
      rw [heq] at hmem
      rcases List.mem_append.mp hmem with hnew | hold
      · by_cases hlt : handle.id < c.desk.coordinator.nextId
        · refine .inr (.inl ?_)
          rcases hcalls handle hnew with hmay | hle
          · exact Acts.mayCall hcalled hacts hlt hmay
          · have hbetween := Nat.lt_of_lt_of_le hlt hcontinues.desk.nextId_le
            exact absurd hle (Nat.not_le_of_lt hbetween)
        · exact .inr (.inr (Nat.le_of_not_lt hlt))
      · exact ih hold

/-! ## What the futures come to -/

/-- The entry that a key was answered with, if there is one. -/
def resolved? (c : Cache K V) (keys : List K) (futures : List (Future K V)) (key : K) :
    Option (Entry K V) :=
  ((keys.zip futures).lookup key).bind c.loaded?

/-- What the futures of several keys have come to is right. -/
structure Concludes (c : Cache K V) (keys : List K) (futures : List (Future K V))
    (joint : Joint K V) : Prop where
  complete_of_ok : (∀ future ∈ futures, ∃ found, c.answer? future = some (.ok found)) →
    ∃ entries, joint = .complete entries
  of_complete : ∀ entries, joint = .complete entries →
    (∀ future ∈ futures, ∃ found, c.answer? future = some (.ok found)) ∧
      Enumerates (entries.map fun entry => (entry.key, entry)) (c.resolved? keys futures)
  of_failed : ∀ error, joint = .failed error → ∃ key future,
    (key, future) ∈ keys.zip futures ∧ c.answer? future = some (.error error)
  of_waiting : joint = .waiting → ∃ key future,
    (key, future) ∈ keys.zip futures ∧ c.answer? future = none

namespace Gathers

variable (h : Gathers c keys futures d) (hnodup : keys.Nodup)
include h

/-- Every future is that of a key. -/
theorem exists_key (hmem : future ∈ futures) : ∃ key, (key, future) ∈ keys.zip futures := by
  rw [← List.map_snd_zip (Nat.le_of_eq h.length_eq.symm)] at hmem
  obtain ⟨⟨key, _⟩, hzip, rfl⟩ := List.mem_map.mp hmem
  exact ⟨key, hzip⟩

include hnodup

/-- Among several keys each has one future. -/
theorem futures_of_keys :
    Enumerates (keys.zip futures) fun key => (keys.zip futures).lookup key := by
  refine .lookup ?_
  rw [List.map_fst_zip (Nat.le_of_eq h.length_eq)]
  exact hnodup

theorem future_eq {other : Future K V} (hmem : (key, future) ∈ keys.zip futures)
    (hother : (key, other) ∈ keys.zip futures) : future = other := by
  have hfutures := h.futures_of_keys hnodup
  exact Option.some.inj
    (((hfutures.mem_iff _ _).mp hmem).symm.trans ((hfutures.mem_iff _ _).mp hother))

/-- The entries that there are, each for its key, are those that the keys were answered with. -/
theorem enumerates (hlater : Acts d e) :
    Enumerates ((futures.filterMap e.loaded?).map fun entry => (entry.key, entry))
      (e.resolved? keys futures) := by
  have hresolved := (h.futures_of_keys hnodup).bind e.loaded?
  have hentries : (futures.filterMap e.loaded?).map (fun entry => (entry.key, entry)) =
      (keys.zip futures).filterMap fun x => (e.loaded? x.2).map (x.1, ·) := by
    conv_lhs => rw [← List.map_snd_zip (Nat.le_of_eq h.length_eq.symm)]
    rw [List.filterMap_map, List.map_filterMap]
    refine List.filterMap_congr fun ⟨key, future⟩ hmem => ?_
    refine Option.map_congr fun entry hloaded => ?_
    rw [h.keyed e hlater key future hmem entry (loaded?_eq_some.mp hloaded)]
  rw [hentries]
  exact hresolved

theorem concludes (hlater : Acts d e) {joint : Joint K V} (hjoins : Joins e futures joint) :
    e.Concludes keys futures joint where
  complete_of_ok hall := ⟨_, hjoins.complete_iff.mpr ⟨hall, rfl⟩⟩
  of_complete entries heq := by
    obtain ⟨hall, rfl⟩ := hjoins.complete_iff.mp heq
    exact ⟨hall, h.enumerates hnodup hlater⟩
  of_failed error heq := by
    obtain ⟨future, hmem, hanswer⟩ := Joins.of_failed (heq ▸ hjoins)
    obtain ⟨key, hzip⟩ := h.exists_key hmem
    exact ⟨key, future, hzip, hanswer⟩
  of_waiting heq := by
    obtain ⟨future, hmem, hnone⟩ := Joins.of_waiting (heq ▸ hjoins)
    obtain ⟨key, hzip⟩ := h.exists_key hmem
    exact ⟨key, future, hzip, hnone⟩

omit hnodup
variable (hcalled : c.Called)
include hcalled

/-- The loads that have begun meanwhile and call the loader are those that were asked for. -/
theorem mem_of_called (hlater : Acts d e) {handle : LoadHandle K} (hmem : handle ∈ e.loaderCalls)
    (hle : c.desk.coordinator.nextId ≤ handle.id)
    (hlt : handle.id < d.desk.coordinator.nextId) :
    (handle.key, .load handle) ∈ keys.zip futures := by
  have hthere := (h.acts.keeps_called hcalled).1
  rcases hlater.called hthere hmem with hmade | hmay | hnew
  · rcases h.called handle hmade with hbefore | ⟨-, hzip⟩
    · obtain ⟨handles, started, hworks, hsubset, -⟩ := hcalled.desk.works
      exact absurd (hworks.serves.id_lt _ (hsubset hbefore)) (Nat.not_lt_of_le hle)
    · exact hzip
  · exact h.begun handle hmay hle
  · exact absurd hlt (Nat.not_lt_of_le hnew)

theorem callsFor_le_one (hnodup : keys.Nodup) (hlater : Acts d e) (key : K) :
    e.callsFor c.desk.coordinator.nextId d.desk.coordinator.nextId key ≤ 1 := by
  by_cases hnone : ∃ handle ∈ e.loaderCalls, handle.key = key ∧
      c.desk.coordinator.nextId ≤ handle.id ∧ handle.id < d.desk.coordinator.nextId
  · obtain ⟨caller, hmem, hkey, hle, hlt⟩ := hnone
    have hcaller := h.mem_of_called hcalled hlater hmem hle hlt
    have hcount : e.loaderCalls.count caller ≤ 1 :=
      List.nodup_iff_count_le_one.mp
        ((h.acts.trans hlater).keeps_called hcalled).1.desk.nodup caller
    refine Nat.le_trans (List.countP_mono_left fun handle hhandle hcounted => ?_) hcount
    obtain ⟨hsame, hle', hlt'⟩ := of_decide_eq_true hcounted
    have hother := h.mem_of_called hcalled hlater hhandle hle' hlt'
    rw [hsame, ← hkey] at hother
    have hfuture := h.future_eq hnodup hcaller hother
    exact beq_iff_eq.mpr (Future.load.inj hfuture).symm
  · refine Nat.le_trans (Nat.le_of_eq (List.countP_eq_zero.mpr fun handle hhandle hcounted => ?_))
      (Nat.zero_le 1)
    exact hnone ⟨handle, hhandle, of_decide_eq_true hcounted⟩

/-- The loader is not called for a key that had its answer from the start. -/
theorem callsFor_eq_zero (hnodup : keys.Nodup) (hlater : Acts d e) {answer : Answer K V}
    (hready : (key, .ready answer) ∈ keys.zip futures) :
    e.callsFor c.desk.coordinator.nextId d.desk.coordinator.nextId key = 0 := by
  refine List.countP_eq_zero.mpr fun handle hhandle hcounted => ?_
  obtain ⟨rfl, hle, hlt⟩ := of_decide_eq_true hcounted
  have hload := h.mem_of_called hcalled hlater hhandle hle hlt
  exact nomatch h.future_eq hnodup hready hload

end Gathers

end Cache

end BoundedCache
