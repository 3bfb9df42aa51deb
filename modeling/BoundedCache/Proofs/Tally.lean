import BoundedCache.Statistics
import BoundedCache.Proofs.Replay

/-!
# Exact counts of outcomes

The statistics are words of 64 bits that wrap.  A `Tally` has the same counters as
natural numbers; `Tally.total` is that of a sequence of outcomes, and the statistics are
its residues (`foldl_record`).

Each outcome counts exactly the entries that its events name, with one exception: a
replacement that is asked for counts the entry that it writes nowhere
(`written_ofOutcome`).
-/

namespace BoundedCache

/-- The counters of the statistics, without a bound. -/
structure Tally where
  hits : Nat := 0
  misses : Nat := 0
  expiredMisses : Nat := 0
  puts : Nat := 0
  loads : Nat := 0
  replaces : Nat := 0
  removes : Nat := 0
  evictions : Nat := 0
  expirations : Nat := 0
  clears : Nat := 0
  trims : Nat := 0
  purges : Nat := 0

namespace Tally

variable {K V : Type}

/-- Two counts together. -/
def add (a b : Tally) : Tally where
  hits := a.hits + b.hits
  misses := a.misses + b.misses
  expiredMisses := a.expiredMisses + b.expiredMisses
  puts := a.puts + b.puts
  loads := a.loads + b.loads
  replaces := a.replaces + b.replaces
  removes := a.removes + b.removes
  evictions := a.evictions + b.evictions
  expirations := a.expirations + b.expirations
  clears := a.clears + b.clears
  trims := a.trims + b.trims
  purges := a.purges + b.purges

/-- The count of one write. -/
def ofWritten (origin : Origin) (w : Written K V) : Tally where
  puts := if origin = .user then 1 else 0
  loads := if origin = .loader then 1 else 0
  replaces := w.old.toList.length
  evictions := w.evicted.length

/-- The count of several writes. -/
def ofAllWritten (origin : Origin) : List (Written K V) → Tally
  | [] => {}
  | w :: rest => (ofWritten origin w).add (ofAllWritten origin rest)

/-- The count of one outcome. -/
def ofOutcome : Outcome K V → Tally
  | .clear removed => { removes := removed.length, clears := 1 }
  | .put origin written => ofWritten origin written
  | .putAll origin puts => ofAllWritten origin puts
  | .remove _ removed => { removes := removed.toList.length }
  | .removeAll removed => { removes := removed.length }
  | .replace _ _ evicted => { replaces := 1, evictions := evicted.length }
  | .trim evicted => { evictions := evicted.length, trims := 1 }
  | .purge expired evicted =>
      { expirations := expired.length, evictions := evicted.length, purges := 1 }
  | .expire expired => { expirations := expired.length }
  | .getHit _ => { hits := 1 }
  | .getMiss _ expired => { misses := 1, expiredMisses := if expired then 1 else 0 }

/-- The count of several outcomes. -/
def total : List (Outcome K V) → Tally
  | [] => {}
  | outcome :: rest => (ofOutcome outcome).add (total rest)

theorem zero_add (t : Tally) : add {} t = t := by
  cases t
  simp [add]

theorem add_zero (t : Tally) : add t {} = t := rfl

theorem add_assoc (a b c : Tally) : (a.add b).add c = a.add (b.add c) := by
  simp [add, Nat.add_assoc]

theorem total_append (first later : List (Outcome K V)) :
    total (first ++ later) = (total first).add (total later) := by
  induction first with
  | nil => exact (zero_add _).symm
  | cons outcome rest ih => rw [List.cons_append, total, total, ih, add_assoc]

/-! ## Statistics -/

/-- The residues of the counts, as words of 64 bits. -/
def toStatistics (t : Tally) : Statistics where
  hits := .ofNat t.hits
  misses := .ofNat t.misses
  expiredMisses := .ofNat t.expiredMisses
  puts := .ofNat t.puts
  loads := .ofNat t.loads
  replaces := .ofNat t.replaces
  removes := .ofNat t.removes
  evictions := .ofNat t.evictions
  expirations := .ofNat t.expirations
  clears := .ofNat t.clears
  trims := .ofNat t.trims
  purges := .ofNat t.purges

theorem countWritten_toStatistics (t : Tally) (origin : Origin) (w : Written K V) :
    t.toStatistics.countWritten origin w = (t.add (ofWritten origin w)).toStatistics := by
  cases origin <;>
    simp [Statistics.countWritten, Statistics.countOrigin, Statistics.countReplaced,
      Statistics.countEvicted, toStatistics, add, ofWritten]

theorem countAllWritten_toStatistics (t : Tally) (origin : Origin) (puts : List (Written K V)) :
    puts.foldl (fun s w => s.countWritten origin w) t.toStatistics =
      (t.add (ofAllWritten origin puts)).toStatistics := by
  induction puts generalizing t with
  | nil => rfl
  | cons w rest ih =>
      rw [List.foldl_cons, countWritten_toStatistics, ih, add_assoc]
      rfl

/-- Recording an outcome adds its count. -/
theorem record_toStatistics (t : Tally) (outcome : Outcome K V) :
    t.toStatistics.record outcome = (t.add (ofOutcome outcome)).toStatistics := by
  cases outcome with
  | put origin w => exact countWritten_toStatistics t origin w
  | putAll origin puts => exact countAllWritten_toStatistics t origin puts
  | getMiss key expired =>
      cases expired <;> simp [Statistics.record, toStatistics, add, ofOutcome]
  | _ =>
      simp [Statistics.record, Statistics.countRemoved, Statistics.countEvicted,
        Statistics.countReplaced, Statistics.countExpired, toStatistics, add, ofOutcome]

/-- The statistics are the residues of the exact counts. -/
theorem foldl_record (t : Tally) (outcomes : List (Outcome K V)) :
    outcomes.foldl Statistics.record t.toStatistics = (t.add (total outcomes)).toStatistics := by
  induction outcomes generalizing t with
  | nil => rfl
  | cons outcome rest ih => rw [List.foldl_cons, record_toStatistics, ih, add_assoc, total]

end Tally

/-! ## Counts and events -/

variable {K V : Type}

/-- Whether the outcome is that of a replacement that was asked for. -/
def Outcome.isReplacement : Outcome K V → Bool
  | .replace .. => true
  | _ => false

/-- Whether the outcome is that of a read. -/
def Outcome.isRead : Outcome K V → Bool
  | .getHit _ => true
  | .getMiss .. => true
  | _ => false

/-- The number of replacements among outcomes. -/
def replacements (outcomes : List (Outcome K V)) : Nat := outcomes.countP Outcome.isReplacement

/-- The number of reads among outcomes. -/
def reads (outcomes : List (Outcome K V)) : Nat := outcomes.countP Outcome.isRead

section

variable (first later : List (Outcome K V))

@[simp] theorem replacements_append :
    replacements (first ++ later) = replacements first + replacements later :=
  List.countP_append

@[simp] theorem reads_append : reads (first ++ later) = reads first + reads later :=
  List.countP_append

variable (outcome : Outcome K V)

theorem replacements_cons :
    replacements (outcome :: later) = replacements [outcome] + replacements later :=
  replacements_append [outcome] later

theorem reads_cons : reads (outcome :: later) = reads [outcome] + reads later :=
  reads_append [outcome] later

end

namespace Tally

theorem reads_ofAllWritten (origin : Origin) (puts : List (Written K V)) :
    (ofAllWritten origin puts).hits = 0 ∧ (ofAllWritten origin puts).misses = 0 ∧
      (ofAllWritten origin puts).expiredMisses = 0 := by
  induction puts with
  | nil => exact ⟨rfl, rfl, rfl⟩
  | cons w rest ih => simpa [ofAllWritten, add, ofWritten] using ih

theorem reads_ofOutcome (outcome : Outcome K V) :
    (ofOutcome outcome).hits + (ofOutcome outcome).misses = reads [outcome] ∧
      (ofOutcome outcome).expiredMisses ≤ (ofOutcome outcome).misses := by
  cases outcome with
  | putAll origin puts =>
      obtain ⟨hhits, hmisses, hexpired⟩ := reads_ofAllWritten origin puts
      simp [ofOutcome, hhits, hmisses, hexpired, reads, Outcome.isRead]
  | getMiss key expired => cases expired <;> simp [ofOutcome, reads, Outcome.isRead]
  | _ => simp [ofOutcome, ofWritten, reads, Outcome.isRead]

/-- Every read is a hit or a miss, and only a miss can be due to expiration. -/
theorem reads_total (outcomes : List (Outcome K V)) :
    (total outcomes).hits + (total outcomes).misses = reads outcomes ∧
      (total outcomes).expiredMisses ≤ (total outcomes).misses := by
  induction outcomes with
  | nil => exact ⟨rfl, Nat.le_refl 0⟩
  | cons outcome rest ih =>
      obtain ⟨hreads, hexpired⟩ := reads_ofOutcome outcome
      rw [reads_cons, ← ih.1, ← hreads]
      simp only [total, add]
      omega

end Tally

@[simp] theorem enters_leaving (reason : Reason) (went : List (Entry K V)) :
    enters (Outcome.leaving reason went) = 0 := by
  induction went with
  | nil => rfl
  | cons e rest ih => exact ih

@[simp] theorem leaves_leaving (reason : Reason) (went : List (Entry K V)) :
    leaves (Outcome.leaving reason went) = went.length := by
  induction went with
  | nil => rfl
  | cons e rest ih =>
      rw [List.length_cons, ← ih]
      exact leaves_leave reason e.key e.value

variable [DecidableEq K]

theorem enters_writing (origin : Origin) (old : Option (Entry K V)) (new : Entry K V)
    (evicted : List (Entry K V)) : enters (Outcome.writing origin old new evicted) = 1 := by
  simp [Outcome.writing]

theorem leaves_writing (origin : Origin) (old : Option (Entry K V)) (new : Entry K V)
    (evicted : List (Entry K V)) :
    leaves (Outcome.writing origin old new evicted) = old.toList.length + evicted.length := by
  have hsplit := List.length_eq_length_filter_add (l := evicted) fun e => decide (e.key = new.key)
  simp only [Outcome.writing, leaves_append, leaves_leaving, leaves_enter, leaves_nil, ne_eq]
  simp only [← decide_not] at hsplit
  omega

namespace Tally

/-- The number of entries counted as gone, for whatever reason. -/
def gone (t : Tally) : Nat := t.replaces + t.removes + t.evictions + t.expirations

/-- The number of entries counted as written. -/
def written (t : Tally) : Nat := t.puts + t.loads

@[simp] theorem gone_add (a b : Tally) : (a.add b).gone = a.gone + b.gone := by
  simp only [gone, add]
  omega

@[simp] theorem written_add (a b : Tally) : (a.add b).written = a.written + b.written := by
  simp only [written, add]
  omega

theorem gone_ofWritten (origin : Origin) (w : Written K V) :
    (ofWritten origin w).gone = leaves (Outcome.writing origin w.old w.new w.evicted) := by
  rw [leaves_writing]
  simp [gone, ofWritten]

theorem written_ofWritten (origin : Origin) (w : Written K V) :
    (ofWritten origin w).written = enters (Outcome.writing origin w.old w.new w.evicted) := by
  rw [enters_writing]
  cases origin <;> rfl

theorem gone_ofAllWritten (origin : Origin) (puts : List (Written K V)) :
    (ofAllWritten origin puts).gone = leaves (Outcome.putAll origin puts).events := by
  induction puts with
  | nil => rfl
  | cons w rest ih =>
      rw [ofAllWritten, gone_add, gone_ofWritten, ih]
      exact leaves_append.symm

theorem written_ofAllWritten (origin : Origin) (puts : List (Written K V)) :
    (ofAllWritten origin puts).written = enters (Outcome.putAll origin puts).events := by
  induction puts with
  | nil => rfl
  | cons w rest ih =>
      rw [ofAllWritten, written_add, written_ofWritten, ih]
      exact enters_append.symm

/-- Every entry that leaves is counted, once. -/
theorem gone_ofOutcome (outcome : Outcome K V) :
    (ofOutcome outcome).gone = leaves outcome.events := by
  cases outcome with
  | put origin w => exact gone_ofWritten origin w
  | putAll origin puts => exact gone_ofAllWritten origin puts
  | replace old new evicted =>
      rw [Outcome.events, leaves_writing]
      simp [gone, ofOutcome]
  | purge expired evicted =>
      simp only [gone, ofOutcome, Outcome.events, leaves_append, leaves_leaving]
      omega
  | _ => simp [gone, ofOutcome, Outcome.events]

/-- Every entry that comes in is counted, once, but for the one that a replacement
writes. -/
theorem written_ofOutcome (outcome : Outcome K V) :
    (ofOutcome outcome).written + replacements [outcome] = enters outcome.events := by
  cases outcome with
  | put origin w => exact written_ofWritten origin w
  | putAll origin puts => exact written_ofAllWritten origin puts
  | replace old new evicted =>
      rw [Outcome.events, enters_writing]
      rfl
  | _ => simp [written, ofOutcome, Outcome.events, replacements, Outcome.isReplacement]

theorem gone_total (outcomes : List (Outcome K V)) :
    (total outcomes).gone = leaves (outcomes.flatMap Outcome.events) := by
  induction outcomes with
  | nil => rfl
  | cons outcome rest ih =>
      rw [total, gone_add, gone_ofOutcome, ih, List.flatMap_cons, leaves_append]

theorem written_total (outcomes : List (Outcome K V)) :
    (total outcomes).written + replacements outcomes =
      enters (outcomes.flatMap Outcome.events) := by
  induction outcomes with
  | nil => rfl
  | cons outcome rest ih =>
      have hfirst := written_ofOutcome outcome
      rw [total, written_add, replacements_cons, List.flatMap_cons, enters_append, ← ih, ← hfirst]
      omega

end Tally

end BoundedCache
