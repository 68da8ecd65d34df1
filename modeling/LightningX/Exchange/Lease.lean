import LightningX.Lib.Threads
import Mathlib.Data.List.Nodup

/-!
# The lease of the leader

The table `leader_lease` and the functions of `desk/leader.rs` on it, and the lease
task of an engine process.  Processes start, take and renew the lease, lose it and
exit, in any order and at any time of the database clock.
-/

namespace LightningX.Exchange

open List

/-- The row of the role of the engines in `leader_lease`. -/
structure LeaseRow where
  holder : String
  epoch : Nat
  expiresAt : Nat
  deriving DecidableEq, Repr

/-- `try_acquire`: the row after the statement, and the epoch it returns.  A renewal
keeps the epoch; a takeover needs an expired lease and raises it. -/
def tryAcquire (lease : Option LeaseRow) (holder : String) (now ttl : Nat) :
    Option LeaseRow × Option Nat :=
  match lease with
  | none => (some ⟨holder, 1, now + ttl⟩, some 1)
  | some row =>
    if row.holder = holder ∨ row.expiresAt < now then
      let epoch := if row.holder = holder then row.epoch else row.epoch + 1
      (some ⟨holder, epoch, now + ttl⟩, some epoch)
    else (some row, none)

def release (lease : Option LeaseRow) (holder : String) (now : Nat) : Option LeaseRow :=
  lease.map fun row => if row.holder = holder then { row with expiresAt := now } else row

/-- The holder that a process writes into the lease. -/
def holderName (processId : Nat) (hostname : String) : String :=
  "engine-" ++ toString processId ++ "-" ++ hostname

/-- An engine process: the state of its lease task, and the epoch that its matching
threads have read last. -/
structure Engine where
  holder : String
  running : Bool
  wasLeader : Bool
  epoch : Option Nat
  seen : Option Nat
  deriving DecidableEq, Repr

namespace Engine

/-- A process that has just started. -/
def new (holder : String) : Engine where
  holder := holder
  running := true
  wasLeader := false
  epoch := none
  seen := none

/-- One tick of the lease task, with what `try_acquire` returned; `none` stands for an
error.  A process that has led and cannot go on exits. -/
def tick (engine : Engine) : Option (Option Nat) → Engine
  | some (some epoch) => { engine with wasLeader := true, epoch := some epoch }
  | some none =>
    if engine.wasLeader then { engine with running := false }
    else { engine with epoch := none }
  | none => if engine.wasLeader then { engine with running := false } else engine

end Engine

/-- A time of leadership: a process and the epoch under which it leads. -/
structure Term where
  engine : Nat
  epoch : Nat
  deriving DecidableEq, Repr

/-- The lease, the processes so far, and the terms in the order in which they began. -/
structure Election where
  lease : Option LeaseRow
  engines : List Engine
  terms : List Term

/-- What happens to the lease.  The database may not answer a process. -/
inductive ElectionStep
  | start (holder : String)
  | tick (engine now ttl : Nat) (answers : Bool)
  | read (engine : Nat)
  | release (engine now : Nat)

namespace Election

/-- Note that a process leads under an epoch. -/
def lead (terms : List Term) (term : Term) : List Term :=
  if terms.getLast? = some term then terms else terms ++ [term]

/-- The lease task of a process asks the database. -/
def acquire (election : Election) (index : Nat) (engine : Engine) (now ttl : Nat) :
    Election :=
  let (lease, granted) := tryAcquire election.lease engine.holder now ttl
  { lease := lease
    engines := election.engines.set index (engine.tick (some granted))
    terms :=
      match granted with
      | none => election.terms
      | some epoch => lead election.terms ⟨index, epoch⟩ }

/-- One step.  A process that has exited does nothing. -/
def step (election : Election) : ElectionStep → Election
  | .start holder => { election with engines := election.engines ++ [.new holder] }
  | .tick index now ttl answers =>
    match election.engines[index]? with
    | none => election
    | some engine =>
      if engine.running then
        if answers then election.acquire index engine now ttl
        else { election with engines := election.engines.set index (engine.tick none) }
      else election
  | .read index =>
    match election.engines[index]? with
    | none => election
    | some engine =>
      { election with
        engines := election.engines.set index { engine with seen := engine.epoch } }
  | .release index now =>
    match election.engines[index]? with
    | none => election
    | some engine => { election with lease := release election.lease engine.holder now }

/-- A process has a name that no process had before, and the epoch is not used up. -/
def Proper (election : Election) : ElectionStep → Prop
  | .start holder => ∀ engine ∈ election.engines, engine.holder ≠ holder
  | .tick _ _ _ _ => ∀ row ∈ election.lease, row.epoch + 1 < 2 ^ 16
  | .read _ => True
  | .release _ _ => True

instance Proper.decide (election : Election) : DecidablePred election.Proper
  | .start holder =>
    inferInstanceAs (Decidable (∀ engine ∈ election.engines, engine.holder ≠ holder))
  | .tick _ _ _ _ => inferInstanceAs (Decidable (∀ row ∈ election.lease, row.epoch + 1 < 2 ^ 16))
  | .read _ => isTrue trivial
  | .release _ _ => isTrue trivial

/-- The names of the processes. -/
def holders (election : Election) : List String :=
  election.engines.map (·.holder)

/-- The lease is that of the last term, epochs rise from term to term, and a process
holds an epoch only in a term of its own. -/
structure Sound (election : Election) : Prop where
  distinct : election.holders.Nodup
  free : election.lease = none → election.terms = []
  taken : ∀ row, election.lease = some row → ∃ index,
    election.holders[index]? = some row.holder ∧ election.terms.getLast? = some ⟨index, row.epoch⟩
  rising : election.terms.Pairwise fun first second => first.epoch < second.epoch
  small : ∀ term ∈ election.terms, 0 < term.epoch ∧ term.epoch < 2 ^ 16
  held : ∀ index engine, election.engines[index]? = some engine → ∀ epoch,
    engine.epoch = some epoch ∨ engine.seen = some epoch → ⟨index, epoch⟩ ∈ election.terms

/-- No process has started. -/
def new : Election where
  lease := none
  engines := []
  terms := []

theorem sound_new : new.Sound where
  distinct := nodup_nil
  free := fun _ => rfl
  taken := by simp [new]
  rising := List.Pairwise.nil
  small := by simp [new]
  held := by simp [new]

section Lead

variable {terms : List Term}

theorem subset_lead : terms ⊆ lead terms term := by
  unfold lead
  split_ifs
  · exact List.Subset.refl _
  · exact subset_append_left _ _

theorem getLast?_lead : (lead terms term).getLast? = some term := by
  unfold lead
  split_ifs with isLast
  · exact isLast
  · exact List.getLast?_concat

theorem mem_lead : term ∈ lead terms term :=
  mem_of_getLast? getLast?_lead

/-- A term that is the last one already, or whose epoch is higher than the last. -/
theorem rising_lead
    (rising : terms.Pairwise fun first second => first.epoch < second.epoch)
    (next : terms.getLast? = some term ∨
      ∀ earlier ∈ terms, earlier.epoch < term.epoch) :
    (lead terms term).Pairwise fun first second => first.epoch < second.epoch := by
  unfold lead
  split_ifs with isLast
  · exact rising
  · exact Threads.pairwise_append rising (next.resolve_left isLast)

end Lead

/-- In a list of rising epochs the last is the highest. -/
theorem epoch_le_last {terms : List Term}
    (rising : terms.Pairwise fun first second => first.epoch < second.epoch)
    (isLast : terms.getLast? = some last) (mem : term ∈ terms) : term.epoch ≤ last.epoch := by
  obtain ⟨earlier, rfl⟩ := List.getLast?_eq_some_iff.mp isLast
  obtain before | here := mem_append.mp mem
  · exact Nat.le_of_lt ((pairwise_append.mp rising).2.2 term before last mem_cons_self)
  · exact Nat.le_of_eq (congrArg Term.epoch (mem_singleton.mp here))

/-- Terms with the same epoch are the same. -/
theorem Sound.eq_of_epoch_eq {election : Election} (sound : election.Sound)
    (mem : term ∈ election.terms) (otherMember : other ∈ election.terms)
    (same : term.epoch = other.epoch) : term = other := by
  have distinct : (election.terms.map (·.epoch)).Nodup :=
    pairwise_map.mpr (sound.rising.imp Nat.ne_of_lt)
  exact inj_on_of_nodup_map distinct mem otherMember same

variable {election : Election} {index : Nat} {engine new : Engine}

theorem map_holder_set
    (isEngine : election.engines[index]? = some engine) (sameHolder : new.holder = engine.holder) :
    (election.engines.set index new).map (·.holder) = election.holders := by
  have here : election.holders[index]? = some new.holder := by
    rw [holders, List.getElem?_map, isEngine, sameHolder]
    rfl
  rw [map_set, ← holders]
  refine ext_getElem? fun place => ?_
  rw [List.getElem?_set]
  split_ifs with same within
  · rw [← same, here]
  · rw [List.getElem?_eq_none (by omega)]
  · rfl

section

variable (sound : election.Sound)
include sound

section

variable (isEngine : election.engines[index]? = some engine)
  (sameHolder : new.holder = engine.holder)
include isEngine sameHolder

/-- A process changes and keeps its name; the terms may grow. -/
theorem Sound.change {lease : Option LeaseRow} {terms : List Term}
    (grows : election.terms ⊆ terms) (free : lease = none → terms = [])
    (taken : ∀ row, lease = some row → ∃ owner,
      election.holders[owner]? = some row.holder ∧ terms.getLast? = some ⟨owner, row.epoch⟩)
    (rising : terms.Pairwise fun first second => first.epoch < second.epoch)
    (small : ∀ term ∈ terms, 0 < term.epoch ∧ term.epoch < 2 ^ 16)
    (own : ∀ epoch, new.epoch = some epoch ∨ new.seen = some epoch → ⟨index, epoch⟩ ∈ terms) :
    Sound ⟨lease, election.engines.set index new, terms⟩ where
  distinct := by
    rw [holders, map_holder_set isEngine sameHolder]
    exact sound.distinct
  free := free
  taken := by
    rw [holders, map_holder_set isEngine sameHolder]
    exact taken
  rising := rising
  small := small
  held := by
    intro place other isOther epoch holds
    by_cases same : index = place
    · subst same
      rw [List.getElem?_set_self (List.getElem?_eq_some_iff.mp isEngine).1,
        Option.some.injEq] at isOther
      subst isOther
      exact own epoch holds
    · rw [List.getElem?_set_ne same] at isOther
      exact grows (sound.held place other isOther epoch holds)

/-- A process changes while the lease and the terms stay. -/
theorem Sound.set
    (own : ∀ epoch, new.epoch = some epoch ∨ new.seen = some epoch →
      engine.epoch = some epoch ∨ engine.seen = some epoch) :
    Sound { election with engines := election.engines.set index new } :=
  sound.change isEngine sameHolder (List.Subset.refl _) sound.free sound.taken sound.rising
    sound.small fun epoch holds => sound.held index engine isEngine epoch (own epoch holds)

end

/-- A new process. -/
theorem Sound.start (fresh : ∀ engine ∈ election.engines, engine.holder ≠ holder) :
    Sound { election with engines := election.engines ++ [.new holder] } where
  distinct := by
    rw [holders, map_append, nodup_append]
    refine ⟨sound.distinct, pairwise_singleton _ _, ?_⟩
    intro name isName other isOther same
    obtain ⟨engine, mem, rfl⟩ := mem_map.mp isName
    rw [mem_singleton.mp isOther] at same
    exact fresh engine mem same
  free := sound.free
  taken := by
    intro row isRow
    obtain ⟨owner, isOwner, isLast⟩ := sound.taken row isRow
    refine ⟨owner, ?_, isLast⟩
    rw [holders, map_append]
    exact (List.getElem?_append_left (List.getElem?_eq_some_iff.mp isOwner).1).trans isOwner
  rising := sound.rising
  small := sound.small
  held := by
    intro index engine isEngine epoch holds
    obtain old | new := Nat.lt_or_ge index election.engines.length
    · rw [List.getElem?_append_left old] at isEngine
      exact sound.held index engine isEngine epoch holds
    · rw [List.getElem?_append_right new] at isEngine
      have isNew := mem_singleton.mp (mem_of_getElem? isEngine)
      subst isNew
      obtain none | none := holds <;> cases none

/-- A process leads under an epoch: that of the last term if it is its own, or a
higher one. -/
theorem Sound.grant
    (isEngine : election.engines[index]? = some engine)
    (next : election.terms.getLast? = some ⟨index, epoch⟩ ∨
      ∀ earlier ∈ election.terms, earlier.epoch < epoch)
    (positive : 0 < epoch) (bounded : epoch < 2 ^ 16) (expiresAt : Nat) :
    Sound
      { lease := some ⟨engine.holder, epoch, expiresAt⟩
        engines := election.engines.set index (engine.tick (some (some epoch)))
        terms := lead election.terms ⟨index, epoch⟩ } := by
  have sameHolder : (engine.tick (some (some epoch))).holder = engine.holder := rfl
  refine sound.change isEngine sameHolder subset_lead ?_ ?_ (rising_lead sound.rising next) ?_ ?_
  · exact nofun
  · intro row isRow
    cases isRow
    refine ⟨index, ?_, getLast?_lead⟩
    rw [holders, List.getElem?_map, isEngine]
    rfl
  · intro term mem
    unfold lead at mem
    split_ifs at mem
    · exact sound.small term mem
    · obtain old | new := mem_append.mp mem
      · exact sound.small term old
      · rw [mem_singleton.mp new]
        exact ⟨positive, bounded⟩
  · rintro other (granted | read)
    · cases granted
      exact mem_lead
    · exact subset_lead (sound.held index engine isEngine other (.inr read))

/-- What a lease task is granted continues the last term or begins one with a higher
epoch. -/
theorem Sound.acquire (isEngine : election.engines[index]? = some engine)
    (bounded : ∀ row ∈ election.lease, row.epoch + 1 < 2 ^ 16) (now ttl : Nat) :
    (election.acquire index engine now ttl).Sound := by
  unfold Election.acquire tryAcquire
  cases isLease : election.lease with
  | none =>
    refine sound.grant isEngine (.inr ?_) Nat.one_pos (by decide) _
    rw [sound.free isLease]
    exact fun _ none => absurd none not_mem_nil
  | some row =>
    obtain ⟨owner, isOwner, isLast⟩ := sound.taken row isLease
    have belowLimit := bounded row isLease
    simp only
    split_ifs with available mine
    · have isHolder : election.holders[index]? = some row.holder := by
        rw [holders, List.getElem?_map, isEngine, mine]
        rfl
      have sameOwner : owner = index :=
        (List.getElem?_inj (List.getElem?_eq_some_iff.mp isOwner).1 sound.distinct).mp
          (isOwner.trans isHolder.symm)
      subst sameOwner
      have positive := (sound.small _ (mem_of_getLast? isLast)).1
      exact sound.grant isEngine (.inl isLast) positive (by omega) _
    · refine sound.grant isEngine (.inr fun earlier mem => ?_) (Nat.succ_pos _) belowLimit _
      exact Nat.lt_succ_of_le (epoch_le_last sound.rising isLast mem)
    · rw [← isLease]
      refine sound.set isEngine ?_ ?_
      · unfold Engine.tick
        split_ifs <;> rfl
      · intro epoch holds
        unfold Engine.tick at holds
        split_ifs at holds
        · exact holds
        · exact .inr (holds.resolve_left nofun)

theorem Sound.release (holder : String) (now : Nat) :
    Sound { election with lease := release election.lease holder now } where
  distinct := sound.distinct
  free := fun none => sound.free (Option.map_eq_none_iff.mp none)
  taken := by
    intro row isRow
    obtain ⟨before, isBefore, changed⟩ := Option.map_eq_some_iff.mp isRow
    obtain ⟨owner, isOwner, isLast⟩ := sound.taken before isBefore
    have kept : row.holder = before.holder ∧ row.epoch = before.epoch := by
      rw [← changed]
      split_ifs <;> exact ⟨rfl, rfl⟩
    rw [kept.1, kept.2]
    exact ⟨owner, isOwner, isLast⟩
  rising := sound.rising
  small := sound.small
  held := sound.held

end

/-- Terms are never forgotten. -/
theorem terms_subset_step (election : Election) (step : ElectionStep) :
    election.terms ⊆ (election.step step).terms := by
  cases step with
  | start holder => exact List.Subset.refl _
  | tick index now ttl answers =>
    simp only [Election.step]
    split
    · exact List.Subset.refl _
    · split_ifs
      · simp only [Election.acquire]
        split
        · exact List.Subset.refl _
        · exact subset_lead
      · exact List.Subset.refl _
      · exact List.Subset.refl _
  | read index =>
    simp only [Election.step]
    split <;> exact List.Subset.refl _
  | release index now =>
    simp only [Election.step]
    split <;> exact List.Subset.refl _

/-- Every step keeps the terms in order. -/
theorem Sound.step (sound : election.Sound) {step : ElectionStep} (proper : election.Proper step) :
    (election.step step).Sound := by
  cases step with
  | start holder => exact sound.start proper
  | tick index now ttl answers =>
    unfold Election.step
    simp only
    split
    · exact sound
    · rename_i engine isEngine
      split_ifs
      · exact sound.acquire isEngine proper now ttl
      · refine sound.set isEngine ?_ ?_
        · unfold Engine.tick
          split_ifs <;> rfl
        · intro epoch holds
          unfold Engine.tick at holds
          split_ifs at holds <;> exact holds
      · exact sound
  | read index =>
    unfold Election.step
    simp only
    split
    · exact sound
    · rename_i engine isEngine
      refine sound.set isEngine rfl fun epoch holds => .inl ?_
      exact holds.elim id id
  | release index now =>
    unfold Election.step
    simp only
    split
    · exact sound
    · exact sound.release _ now

end Election
end LightningX.Exchange
