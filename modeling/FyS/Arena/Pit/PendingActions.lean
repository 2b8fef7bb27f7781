import FyS.Arena.Pit.Initial
import FyS.Arena.Pit.Scripting
import FyS.Common.QueueRefinement

/-!
# Pending actions

A request for an action is stored as the index of the first doable action of its
name, or as the number of doable actions for a name that is unknown.  It is read
against the doable actions of the moment in which it is executed.
-/

namespace FyS.Arena

open FyS.Common FyS.Library.BoundedQueue FyS.Library.Observation

namespace TeamMember

def addDoableAction (doable : String) (level : Nat) (member : TeamMember) : TeamMember :=
  { member with actionsDoable := member.actionsDoable ++ [(doable, level)] }

def distance (actionName : String) (actionsDoable : List (String × Nat)) : Nat :=
  actionsDoable.findIdx fun action => actionName == action.1

def pushed (member : TeamMember) (answer : Bool × SizedQueue PendingAction 100) : TeamMember :=
  { member with pendingActions := answer.2 }

/-- The distance is stored as a `uint`; nobody asks whether the queue had room. -/
def addPendingAction (actionName : String) (target : TargetType) (member : TeamMember) :
    TeamMember :=
  member.pushed (member.pendingActions.push
    ⟨distance actionName member.actionsDoable % 4294967296, some target⟩)

end TeamMember

/-! ## What is seen of a member -/

inductive MemberOp where
  | addDoableAction (doable : String) (level : Nat)
  | addPendingAction (actionName : String) (target : TargetType)
  | executeAction
deriving DecidableEq, Repr

inductive Outcome where
  | silent
  | idle
  | refused
  | runs (action : String) (target : Option TargetType)
deriving DecidableEq, Repr

namespace TeamMember

/-- How `executeAction` begins. -/
def outcome (member : TeamMember) : Outcome :=
  match member.pendingActions.pop.1 with
  | none => .idle
  | some pa =>
    match member.actionsDoable[pa.idAction]? with
    | none => .refused
    | some action => .runs action.1 pa.target

def step (member : TeamMember) : MemberOp → Outcome × TeamMember
  | .addDoableAction doable level => (.silent, member.addDoableAction doable level)
  | .addPendingAction actionName target => (.silent, member.addPendingAction actionName target)
  | .executeAction => (member.outcome, { member with pendingActions := member.pendingActions.pop.2 })

end TeamMember

/-! ## Requests as they were made -/

structure Request where
  actionName : String
  target : TargetType
  doableThen : List (String × Nat)

namespace Request

def known (r : Request) : Bool := r.doableThen.any fun action => r.actionName == action.1

def outcome (r : Request) : Outcome :=
  if r.known then .runs r.actionName (some r.target) else .refused

def pending (r : Request) : PendingAction :=
  ⟨TeamMember.distance r.actionName r.doableThen % 4294967296, some r.target⟩

end Request

structure Agenda where
  actionsDoable : List (String × Nat)
  requests : List Request

namespace Agenda

def step (agenda : Agenda) : MemberOp → Outcome × Agenda
  | .addDoableAction doable level =>
    (.silent, { agenda with actionsDoable := agenda.actionsDoable ++ [(doable, level)] })
  | .addPendingAction actionName target =>
    (.silent, { agenda with
      requests := agenda.requests ++ [⟨actionName, target, agenda.actionsDoable⟩] })
  | .executeAction =>
    match agenda.requests with
    | [] => (.idle, agenda)
    | r :: rest => (r.outcome, { agenda with requests := rest })

end Agenda

structure CountedAgenda extends Agenda where
  accepted : Nat

namespace CountedAgenda

def tally (c : CountedAgenda) : MemberOp → Nat
  | .addDoableAction _ _ => c.accepted
  | .addPendingAction _ _ => c.accepted + 1
  | .executeAction => if c.requests.isEmpty then 0 else c.accepted

def step (c : CountedAgenda) (op : MemberOp) : Outcome × CountedAgenda :=
  ((c.toAgenda.step op).1, ⟨(c.toAgenda.step op).2, c.tally op⟩)

theorem observe_eq_agenda (c : CountedAgenda) (ops : List MemberOp) :
    observe step c ops = observe Agenda.step c.toAgenda ops := by
  apply observe_eq (R := fun c agenda => CountedAgenda.toAgenda c = agenda)
  · rintro c _ op rfl
    exact ⟨rfl, rfl⟩
  · rfl

theorem executeAction_of_nil {c : CountedAgenda} (h : c.requests = []) :
    c.step .executeAction = (.idle, { c with accepted := 0 }) := by
  obtain ⟨⟨actionsDoable, requests⟩, accepted⟩ := c
  subst h
  rfl

theorem executeAction_of_cons {c : CountedAgenda} {r : Request} {rest : List Request}
    (h : c.requests = r :: rest) :
    c.step .executeAction = (r.outcome, { c with requests := rest }) := by
  obtain ⟨⟨actionsDoable, requests⟩, accepted⟩ := c
  subst h
  rfl

def Room (c : CountedAgenda) : MemberOp → Prop
  | .addPendingAction _ _ => c.requests.length < 100
  | _ => True

/-- No counter has wrapped, the index of the next request fits 32 bits, and nothing
became doable since it if its action was unknown. -/
structure Ready (c : CountedAgenda) : Prop where
  unwrapped : c.accepted < 4294967296
  fits : ∀ r ∈ c.requests.head?, TeamMember.distance r.actionName r.doableThen < 4294967296
  fresh : ∀ r ∈ c.requests.head?, r.known = false →
    c.actionsDoable.length = r.doableThen.length

def Sound (c : CountedAgenda) : MemberOp → Prop
  | .executeAction => c.Ready
  | _ => True

end CountedAgenda

/-! ## Stored requests -/

namespace Request

variable {r : Request} {actionsDoable : List (String × Nat)}

theorem distance_le (actionName : String) (actionsDoable : List (String × Nat)) :
    TeamMember.distance actionName actionsDoable ≤ actionsDoable.length := List.findIdx_le_length

theorem getElem?_of_known (hgrown : r.doableThen <+: actionsDoable) (h : r.known = true) :
    ∃ level, actionsDoable[TeamMember.distance r.actionName r.doableThen]? =
      some (r.actionName, level) := by
  have hlt : TeamMember.distance r.actionName r.doableThen < r.doableThen.length := by
    apply List.findIdx_lt_length_of_exists
    simpa [known] using h
  have hname : r.actionName = (r.doableThen[TeamMember.distance r.actionName r.doableThen]).1 :=
    eq_of_beq (List.findIdx_getElem (w := hlt))
  refine ⟨(r.doableThen[TeamMember.distance r.actionName r.doableThen]).2, ?_⟩
  rw [List.prefix_iff_getElem?.mp hgrown _ hlt]
  exact congrArg some (Prod.ext hname.symm rfl)

theorem distance_of_unknown (h : r.known = false) :
    TeamMember.distance r.actionName r.doableThen = r.doableThen.length := by
  apply List.findIdx_eq_length_of_false
  simpa [known] using h

theorem ne_of_lt_distance (hgrown : r.doableThen <+: actionsDoable) {i : Nat}
    (h : i < TeamMember.distance r.actionName r.doableThen) :
    ∃ action, actionsDoable[i]? = some action ∧ action.1 ≠ r.actionName := by
  have hlt : i < r.doableThen.length := Nat.lt_of_lt_of_le h (distance_le _ _)
  refine ⟨r.doableThen[i], List.prefix_iff_getElem?.mp hgrown i hlt, ?_⟩
  exact (beq_eq_false_iff_ne.mp (List.not_of_lt_findIdx h)).symm

end Request

/-! ## A member follows its agenda -/

structure Follows (member : TeamMember) (c : CountedAgenda) : Prop where
  doable : member.actionsDoable = c.actionsDoable
  stored : ∃ queue : Fifo PendingAction 100, queue.items = c.requests.map Request.pending ∧
    member.pendingActions.Lays ⟨queue, c.accepted⟩
  grown : ∀ r ∈ c.requests, r.doableThen <+: c.actionsDoable

namespace Follows

variable {member : TeamMember} {c : CountedAgenda}

theorem addDoableAction (h : Follows member c) (doable : String) (level : Nat) :
    Follows (member.addDoableAction doable level) (c.step (.addDoableAction doable level)).2 where
  doable := congrArg (· ++ [(doable, level)]) h.doable
  stored := h.stored
  grown r hr := (h.grown r hr).trans (List.prefix_append _ _)

theorem pushed (h : Follows member c) {queue : Fifo PendingAction 100} {actionName : String}
    {target : TargetType} {answer : Bool × SizedQueue PendingAction 100}
    (hitems : queue.items =
      (c.requests ++ [Request.mk actionName target c.actionsDoable]).map Request.pending)
    (hlays : answer.2.Lays ⟨queue, c.accepted + 1⟩) :
    Follows (member.pushed answer) (c.step (.addPendingAction actionName target)).2 where
  doable := h.doable
  stored := ⟨queue, hitems, hlays⟩
  grown := by
    intro r hr
    rcases List.mem_append.mp hr with hr | hr
    · exact h.grown r hr
    · rw [List.mem_singleton.mp hr]
      exact List.prefix_refl _

theorem addPendingAction (h : Follows member c) (hroom : c.requests.length < 100)
    (actionName : String) (target : TargetType) :
    Follows (member.addPendingAction actionName target)
      (c.step (.addPendingAction actionName target)).2 := by
  obtain ⟨queue, hitems, hlays⟩ := h.stored
  have hlt : queue.items.length < 100 := by
    rw [hitems, List.length_map]
    exact hroom
  have hpending : (⟨actionName, target, c.actionsDoable⟩ : Request).pending =
      ⟨TeamMember.distance actionName member.actionsDoable % 4294967296, some target⟩ := by
    rw [Request.pending, h.doable]
  have hpush := (hlays.push_of_room (by decide) hlt
    (⟨actionName, target, c.actionsDoable⟩ : Request).pending).2
  rw [TeamMember.addPendingAction, ← hpending]
  apply h.pushed _ hpush
  rw [List.map_append, ← hitems]
  rfl

theorem executeAction_of_nil (h : Follows member c) (hnil : c.requests = [])
    (hlt : c.accepted < 4294967296) :
    (member.step .executeAction).1 = (c.step .executeAction).1 ∧
      Follows (member.step .executeAction).2 (c.step .executeAction).2 := by
  obtain ⟨queue, hitems, hlays⟩ := h.stored
  rw [hnil, List.map_nil] at hitems
  obtain ⟨hnone, hnext⟩ := hlays.pop_of_empty hitems hlt
  rw [CountedAgenda.executeAction_of_nil hnil]
  constructor
  · simp only [TeamMember.step, TeamMember.outcome, hnone]
  · constructor
    · exact h.doable
    · refine ⟨queue, ?_, hnext⟩
      rw [hnil]
      exact hitems
    · exact h.grown

/-- An execution that finds a request takes it off, whatever it does with it. -/
theorem executeAction_of_cons (h : Follows member c) {r : Request} {rest : List Request}
    (hcons : c.requests = r :: rest) (hlt : c.accepted < 4294967296) :
    member.pendingActions.pop.1 = some r.pending ∧
      Follows (member.step .executeAction).2 (c.step .executeAction).2 := by
  obtain ⟨queue, hitems, hlays⟩ := h.stored
  rw [hcons, List.map_cons] at hitems
  obtain ⟨hsome, hnext⟩ := hlays.pop_of_cons hitems hlt
  rw [CountedAgenda.executeAction_of_cons hcons]
  refine ⟨hsome, h.doable, ⟨queue.pop.2, ?_, hnext⟩, ?_⟩
  · show queue.items.tail = rest.map Request.pending
    rw [hitems]
    rfl
  · intro r' hr'
    exact h.grown r' (hcons ▸ List.mem_cons_of_mem r hr')

theorem outcome_of_cons (h : Follows member c) {r : Request} {rest : List Request}
    (hcons : c.requests = r :: rest) (hready : c.Ready) : member.outcome = r.outcome := by
  have hhead : r ∈ c.requests.head? := by rw [hcons]; rfl
  have hgrown := h.grown r (hcons ▸ List.mem_cons_self)
  have hpop := (h.executeAction_of_cons hcons hready.unwrapped).1
  have hindex : r.pending.idAction = TeamMember.distance r.actionName r.doableThen :=
    Nat.mod_eq_of_lt (hready.fits r hhead)
  unfold TeamMember.outcome Request.outcome
  rw [hpop]
  simp only [hindex, h.doable]
  cases hknown : r.known with
  | true =>
      obtain ⟨level, haction⟩ := Request.getElem?_of_known hgrown hknown
      rw [haction]
      rfl
  | false =>
      have hnone : c.actionsDoable[TeamMember.distance r.actionName r.doableThen]? = none := by
        rw [Request.distance_of_unknown hknown, ← hready.fresh r hhead hknown]
        exact List.getElem?_eq_none (Nat.le_refl _)
      rw [hnone]
      rfl

/-- A request whose index does not fit runs an action of another name. -/
theorem outcome_ne_of_not_fits (h : Follows member c) {r : Request} {rest : List Request}
    (hcons : c.requests = r :: rest) (hlt : c.accepted < 4294967296)
    (hfits : ¬ TeamMember.distance r.actionName r.doableThen < 4294967296) :
    member.outcome ≠ r.outcome := by
  have hpop := (h.executeAction_of_cons hcons hlt).1
  have hindex : r.pending.idAction < TeamMember.distance r.actionName r.doableThen :=
    Nat.lt_of_lt_of_le (Nat.mod_lt _ (by decide)) (Nat.not_lt.mp hfits)
  obtain ⟨action, haction, hname⟩ :=
    Request.ne_of_lt_distance (h.grown r (hcons ▸ List.mem_cons_self)) hindex
  have hruns : member.outcome = .runs action.1 r.pending.target := by
    unfold TeamMember.outcome
    rw [hpop]
    simp only [h.doable, haction]
  rw [hruns, Request.outcome]
  split
  · intro heq
    exact hname (Outcome.runs.inj heq).1
  · intro heq
    cases heq

/-- A request for an unknown action runs whatever became doable in its place. -/
theorem outcome_ne_of_not_fresh (h : Follows member c) {r : Request} {rest : List Request}
    (hcons : c.requests = r :: rest) (hlt : c.accepted < 4294967296)
    (hfits : TeamMember.distance r.actionName r.doableThen < 4294967296)
    (hknown : r.known = false) (hlength : c.actionsDoable.length ≠ r.doableThen.length) :
    member.outcome ≠ r.outcome := by
  have hpop := (h.executeAction_of_cons hcons hlt).1
  have hindex : r.pending.idAction = r.doableThen.length :=
    (Nat.mod_eq_of_lt hfits).trans (Request.distance_of_unknown hknown)
  have hle := (h.grown r (hcons ▸ List.mem_cons_self)).length_le
  have hgrown : r.doableThen.length < c.actionsDoable.length := by omega
  have hruns : member.outcome =
      .runs (c.actionsDoable[r.doableThen.length]).1 r.pending.target := by
    unfold TeamMember.outcome
    rw [hpop]
    simp only [h.doable, hindex, List.getElem?_eq_getElem hgrown]
  rw [hruns, Request.outcome, hknown, if_neg Bool.false_ne_true]
  intro heq
  cases heq

theorem outcome_ne (h : Follows member c) (hready : ¬ c.Ready) :
    member.outcome ≠ (c.step .executeAction).1 := by
  cases hrequests : c.requests with
  | nil =>
      obtain ⟨queue, hitems, hlays⟩ := h.stored
      rw [hrequests] at hitems
      by_cases hlt : c.accepted < 4294967296
      · apply absurd _ hready
        constructor
        · exact hlt
        · simp [hrequests]
        · simp [hrequests]
      · exact absurd hitems (hlays.pop_of_wrapped (by decide) (Nat.not_lt.mp hlt)).2
  | cons r rest =>
      rw [CountedAgenda.executeAction_of_cons hrequests]
      by_cases hlt : c.accepted < 4294967296
      · by_cases hfits : TeamMember.distance r.actionName r.doableThen < 4294967296
        · by_cases hknown : r.known = false
          · apply h.outcome_ne_of_not_fresh hrequests hlt hfits hknown
            intro hlength
            apply hready
            constructor
            · exact hlt
            · simp [hrequests, hfits]
            · simp [hrequests, hlength]
          · apply absurd _ hready
            constructor
            · exact hlt
            · simp [hrequests, hfits]
            · simp [hrequests, hknown]
        · exact h.outcome_ne_of_not_fits hrequests hlt hfits
      · obtain ⟨queue, -, hlays⟩ := h.stored
        have hnone := (hlays.pop_of_wrapped (by decide) (Nat.not_lt.mp hlt)).1
        unfold TeamMember.outcome Request.outcome
        rw [hnone]
        simp only
        split
        · intro heq
          cases heq
        · intro heq
          cases heq

theorem step (h : Follows member c) {op : MemberOp} (hroom : c.Room op) (hsound : c.Sound op) :
    (member.step op).1 = (c.step op).1 ∧ Follows (member.step op).2 (c.step op).2 := by
  cases op with
  | addDoableAction doable level => exact ⟨rfl, h.addDoableAction doable level⟩
  | addPendingAction actionName target => exact ⟨rfl, h.addPendingAction hroom actionName target⟩
  | executeAction =>
      cases hrequests : c.requests with
      | nil => exact h.executeAction_of_nil hrequests hsound.unwrapped
      | cons r rest =>
          constructor
          · rw [CountedAgenda.executeAction_of_cons hrequests]
            exact h.outcome_of_cons hrequests hsound
          · exact (h.executeAction_of_cons hrequests hsound.unwrapped).2

theorem step_ne (h : Follows member c) {op : MemberOp} (hsound : ¬ c.Sound op) :
    (member.step op).1 ≠ (c.step op).1 := by
  cases op with
  | addDoableAction doable level => exact absurd trivial hsound
  | addPendingAction actionName target => exact absurd trivial hsound
  | executeAction => exact h.outcome_ne hsound

end Follows

/-! ## Every interleaving -/

namespace TeamMember

theorem follows_new (member : TeamMember) :
    Follows { member with pendingActions := .new } ⟨⟨member.actionsDoable, []⟩, 0⟩ where
  doable := rfl
  stored := ⟨.empty, rfl, SizedQueue.lays_new⟩
  grown r hr := by cases hr

/-- With at most 100 requests pending, the executions do what was requested, in
order, exactly when each of them is sound. -/
theorem pending_actions_iff (member : TeamMember) (ops : List MemberOp)
    (hroom : Along CountedAgenda.step CountedAgenda.Room ⟨⟨member.actionsDoable, []⟩, 0⟩ ops) :
    observe step { member with pendingActions := .new } ops =
        observe Agenda.step ⟨member.actionsDoable, []⟩ ops ↔
      Along CountedAgenda.step CountedAgenda.Sound ⟨⟨member.actionsDoable, []⟩, 0⟩ ops := by
  rw [← CountedAgenda.observe_eq_agenda ⟨⟨member.actionsDoable, []⟩, 0⟩]
  apply observe_eq_iff_of_along CountedAgenda.Room (R := Follows)
  · intro member c op h hroom hsound
    exact h.step hroom hsound
  · intro member c op h hroom hsound
    exact h.step_ne hsound
  · exact follows_new member
  · exact hroom

theorem pending_actions_iff_one :
    observe step { FightingPit.recruit "a" .A_N 5 with pendingActions := .new }
          [.addDoableAction "slash" 1, .addPendingAction "slash" (.contenderTargetId 0),
            .executeAction] =
        observe Agenda.step ⟨[], []⟩
          [.addDoableAction "slash" 1, .addPendingAction "slash" (.contenderTargetId 0),
            .executeAction] ↔
      Along CountedAgenda.step CountedAgenda.Sound ⟨⟨[], []⟩, 0⟩
        [.addDoableAction "slash" 1, .addPendingAction "slash" (.contenderTargetId 0),
          .executeAction] :=
  pending_actions_iff (FightingPit.recruit "a" .A_N 5) _
    ⟨trivial, show 0 < 100 by decide, trivial, trivial⟩

/-- The request for an unknown action runs another one that was learned since. -/
theorem unknown_action_runs :
    ¬ ∀ (member : TeamMember) (ops : List MemberOp),
      Along CountedAgenda.step CountedAgenda.Room ⟨⟨member.actionsDoable, []⟩, 0⟩ ops →
        observe step { member with pendingActions := .new } ops =
          observe Agenda.step ⟨member.actionsDoable, []⟩ ops := by
  intro h
  have hsame := h (FightingPit.recruit "a" .A_N 5)
    [.addPendingAction "heal" (.allyTargetId 1), .addDoableAction "slash" 1, .executeAction]
    ⟨show 0 < 100 by decide, trivial, trivial, trivial⟩
  exact absurd hsame (by decide)

end TeamMember

end FyS.Arena
