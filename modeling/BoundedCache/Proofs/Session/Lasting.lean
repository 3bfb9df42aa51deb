import BoundedCache.Proofs.Lasting
import BoundedCache.Proofs.Session.Coursing

/-!
# How long a write lasts in a session

Under the rule of timeouts a write is found for as long as its own timeout says, or else the
default one, whatever comes after it (`live_lasts`): reads of the key, sweeps, and errands for
other keys, as long as the key is not written again and does not leave for another reason than
its age.  The errands are those of users, of hooks, of loads and of the sweeper alike.
-/

namespace BoundedCache

variable {K V : Type} [DecidableEq K]

namespace Cache

variable {c : Cache K V}

/-- What can be seen of a key without reading it. -/
structure Shows (c : Cache K V) (key : K) (value? : Option V) : Prop where
  peek_eq : (c.peek key).1.map (·.value) = value?
  contains_eq : (c.contains key).1 = value?.isSome

/-- What reads of a key find at once. -/
structure Answers [KeyText K] (c : Cache K V) (key : K) (value? : Option V) : Prop where
  getIfPresent_eq : (c.getIfPresent key).1.map (·.map (·.value)) = .ok value?
  get_iff : ∀ attributes value,
    (∃ e, (c.get key attributes).1 = .ready (.ok (some e)) ∧ e.value = value) ↔
      value? = some value

theorem shows_of_running (hrunning : c.lifecycle = .running) (key : K) :
    c.Shows key ((c.live? key).map (·.value)) where
  peek_eq := by rw [peek_of_running hrunning]
  contains_eq := by rw [contains_of_running hrunning, Option.isSome_map]

theorem answers_of_running [KeyText K] (hrunning : c.lifecycle = .running) (key : K) :
    c.Answers key ((c.found .get key).map (·.value)) where
  getIfPresent_eq := by
    rw [getIfPresent_of_running hrunning]
    cases c.found .get key <;> rfl
  get_iff attributes value := by
    simp only [get_eq_ready_iff hrunning]
    cases c.found .get key <;> simp [Entry.access]

end Cache

namespace Session

variable [KeyText K] {b : Builder K V} {c : Cache K V} {default : Option Duration}

/-- Whatever happens to a session under the rule of timeouts, its data have come from an empty
store on a course of errands, in the order of their times if the clock is never set back.  The
log of it has a part for each event, with what was asked for then.  And whichever course it was:
if on it the write of a key stands, that key is found now exactly if the timeout of the write, or
else the default one, is not over yet.  Reads go by the data that the hooks have left when they are
told of the read, and where the hooks wait, these are the same. -/
theorem live_lasts (hbuild : b.build = .ok c) (hstart : b.policy.Starts)
    (hrule : b.expirationRule = .timeout default) (happenings : List (Happening K V))
    (hrunning : (live ⟨c, []⟩ happenings).cache.lifecycle = .running) :
    let d := (live ⟨c, []⟩ happenings).cache
    let start : Store K V := .new b.policy b.maxEntries b.maxVolume b.walk
    (∃ parts, Chronicle ⟨c, []⟩ happenings parts ∧
      Course (.timeout default) start parts.flatten d.store ∧
      (Forwards ⟨c, []⟩ happenings → Ascends b.clock parts.flatten d.clock)) ∧
    (∀ log write key value, Stands log write key value d.clock →
      let found :=
        if lasts (write.errand.timeout.or default) write.time d.clock then some value else none
      (Course (.timeout default) start log d.store → d.Shows key found) ∧
      (Course (.timeout default) start log (d.announced .get).store → d.Answers key found)) ∧
    ((∀ hook ∈ b.hooks, hook.Waits) → (d.announced .get).store = d.store) := by
  intro d start
  have hagrees : start.Agrees := Store.agrees_new hstart b.maxEntries b.maxVolume b.walk
  obtain ⟨hexpiration, hcourse⟩ := course_of_build hbuild happenings
  rw [hrule] at hexpiration hcourse
  refine ⟨hcourse, fun log write key value hstands => ⟨fun hlog => ?_, fun hlog => ?_⟩, ?_⟩
  · have hlive : (d.live? key).map (·.value) = _ := hexpiration ▸ hstands.live?_eq hlog hagrees
    exact hlive ▸ Cache.shows_of_running hrunning key
  · have hfound : (d.found .get key).map (·.value) = _ :=
      hexpiration ▸ hstands.live?_eq hlog hagrees
    exact hfound ▸ Cache.answers_of_running hrunning key
  · intro hwaits
    have hall := forall_hooks_live hbuild (P := Hook.Waits) trivial trivial hwaits happenings
    rw [Cache.announced_eq hall]

/-- The theorem for two writes, one with a timeout of its own, which is over after just so many
milliseconds, though the key has been read and swept over before. -/
theorem live_lasts_swept :
    let b : Builder String Nat :=
      { executor := some {}, defaultTimeout := some (.ofMillis 100) }
    ∃ c, b.build = .ok c ∧
      let d := (live ⟨c, []⟩
        [.request (.put "a" 1 { timeout := some (.ofMillis 10) }), .request (.setClock 5),
          .request (.getIfPresent "a"), .request (.put "b" 2 {}), .request .evict,
          .request (.setClock 10)]).cache
      d.store.contains "a" = true ∧ (d.Shows "a" none ∧ d.Answers "a" none) ∧
        d.Shows "b" (some 2) ∧ d.Answers "b" (some 2) := by
  refine ⟨_, rfl, ?_⟩
  obtain ⟨-, hfound, hsame⟩ := live_lasts
    (b := { executor := some {}, defaultTimeout := some (.ofMillis 100) }) rfl (.builtIn .lru) rfl
    [.request (.put "a" 1 { timeout := some (.ofMillis 10) }), .request (.setClock 5),
      .request (.getIfPresent "a"), .request (.put "b" 2 {}), .request .evict,
      .request (.setClock 10)] (by decide +kernel)
  rw [hsame nofun] at hfound
  have hcourse (x : Expiration String Nat) (s : Store String Nat) :=
    Course.stroke (x := x) (s := s) (.write "a" 1 { timeout := some (.ofMillis 10) } .user) 0
      (.stroke (.lookup "a") 5 (.stroke (.write "b" 2 {} .user) 5 (.stroke .expire 5 (.stay _))))
  have hfirst := fun log outcomes => imp_and.mpr ∘
    hfound log ⟨.write "a" 1 { timeout := some (.ofMillis 10) } .user, 0, outcomes⟩ "a" 1
  have hsecond := fun log outcomes => imp_and.mpr ∘
    hfound log ⟨.write "b" 2 {} .user, 5, outcomes⟩ "b" 2
  refine ⟨by decide +kernel, hfirst _ _ ⟨[], _, rfl, ⟨.user, ?_⟩, ?_⟩ (hcourse _ _),
    hsecond _ _ ⟨[_, _], _, rfl, ⟨.user, ?_⟩, ?_⟩ (hcourse _ _)⟩
  all_goals decide +kernel

end Session

end BoundedCache
