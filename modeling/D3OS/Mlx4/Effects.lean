import D3OS.Mlx4.Device
import D3OS.Mlx4.Transitions

/-!
# What a verb can do

Every verb, whether it returns or fails, changes the context it names, the card and the
protection domain numbers in one of a few ways. The invariants of the device follow from
these, not from the verbs themselves.
-/

namespace D3OS.Mlx4

open Lib Memory Rdma

/-- The number and the protection domain of a queue pair. -/
def QueuePair.key (qp : QueuePair) : Nat × Nat := (qp.number, qp.pd)

/-- The index and the protection domain of a memory region that is not destroyed. -/
def MemoryRegion.key (mr : MemoryRegion) : Option (Nat × Nat) :=
  mr.dmpt.map fun entry ↦ (entry.index, entry.pd.toNat)

/-- The numbers that a verb can use up without an object to show for it. -/
inductive Offsets.Drawn (o : Offsets) : Verb → Offsets → Prop
  | nothing (verb : Verb) : Drawn o verb o
  | cqn (params : CompletionQueue.Params) :
      Drawn o (.createCq params) { o with nextCqn := o.nextCqn + 1 }
  | dmpt (pd : Nat) (data : UserSlice) (access : AccessFlags) :
      Drawn o (.createMr pd data access) { o with nextDmpt := o.nextDmpt + 1 }

/-- What a verb can do to the context it names, the card and the numbers in use. -/
inductive Effect (s : Session) : Verb → Session → Prop
  | card (verb : Verb) (card' : Card) (hoffsets : s.card.offsets.Drawn verb card'.offsets) :
      Effect s verb { s with card := card' }
  | allocPd (pd : Nat) (hfree : pd ∉ s.pdNumbers) :
      Effect s .allocPd { s with
        pdNumbers := s.pdNumbers.insert pd, ctx := { s.ctx with pds := s.ctx.pds ++ [pd] } }
  | deallocPd (pd : Nat) (pds' : List Nat) (hpds : (pd :: pds').Perm s.ctx.pds) :
      Effect s (.deallocPd pd) { s with
        pdNumbers := s.pdNumbers.erase pd, ctx := { s.ctx with pds := pds' } }
  | createCq (params : CompletionQueue.Params) (cq : CompletionQueue) (card' : Card)
      (hnumber : cq.number = s.card.offsets.nextCqn)
      (hoffsets : card'.offsets = { s.card.offsets with nextCqn := s.card.offsets.nextCqn + 1 }) :
      Effect s (.createCq params) { s with
        card := card', ctx := { s.ctx with cqs := s.ctx.cqs ++ [cq] } }
  | cqs (verb : Verb) (cmd' : CommandInterface) (cqs' : List CompletionQueue)
      (hcqs : (cqs'.map CompletionQueue.number).Subperm (s.ctx.cqs.map CompletionQueue.number)) :
      Effect s verb { s with
        card := { s.card with cmd := cmd' }, ctx := { s.ctx with cqs := cqs' } }
  | createQp (params : QueuePair.Params) (qp : QueuePair) (card' : Card)
      (hpd : params.pd ∈ s.ctx.pds) (hkey : qp.key = (s.card.offsets.nextQpn, params.pd))
      (hoffsets : card'.offsets = { s.card.offsets with nextQpn := s.card.offsets.nextQpn + 1 }) :
      Effect s (.createQp params) { s with
        card := card', ctx := { s.ctx with qps := s.ctx.qps ++ [qp] } }
  | qps (verb : Verb) (cmd' : CommandInterface) (qps' : List QueuePair)
      (hqps : (qps'.map QueuePair.key).Subperm (s.ctx.qps.map QueuePair.key)) :
      Effect s verb { s with
        card := { s.card with cmd := cmd' }, ctx := { s.ctx with qps := qps' } }
  | createMr (pd : Nat) (data : UserSlice) (access : AccessFlags) (mr : MemoryRegion)
      (card' : Card) (hpd : pd ∈ s.ctx.pds) (hkey : mr.key = some (s.card.offsets.nextDmpt, pd))
      (hoffsets : card'.offsets = { s.card.offsets with nextDmpt := s.card.offsets.nextDmpt + 1 }) :
      Effect s (.createMr pd data access) { s with
        card := card', ctx := { s.ctx with mrs := s.ctx.mrs ++ [mr] } }
  | mrs (verb : Verb) (cmd' : CommandInterface) (mrs' : List MemoryRegion)
      (hmrs : (mrs'.map MemoryRegion.key).Subperm (s.ctx.mrs.map MemoryRegion.key)) :
      Effect s verb { s with
        card := { s.card with cmd := cmd' }, ctx := { s.ctx with mrs := mrs' } }

/-- What a context holds. -/
structure ContextObjects where
  owner : Nat
  uarPage : UarPage
  pds : List Nat
  cqs : List Nat
  qps : List Nat
  mrs : List (Option Nat)
  deriving DecidableEq

/-- The objects of a context. -/
def UContext.objects (ctx : UContext) : ContextObjects where
  owner := ctx.owner
  uarPage := ctx.uarPage
  pds := ctx.pds
  cqs := ctx.cqs.map CompletionQueue.number
  qps := ctx.qps.map QueuePair.number
  mrs := ctx.mrs.map MemoryRegion.index

/-- The verbs that create an object. -/
def Verb.creates : Verb → Bool
  | .allocPd | .createCq _ | .createQp _ | .createMr _ _ _ => true
  | .deallocPd _ | .destroyCq _ | .modifyQp _ _ _ | .destroyQp _ | .destroyMr _ => false

/-- The size of the answer of a verb in bytes. -/
def Verb.answerSize : Verb → Nat
  | .allocPd | .createCq _ | .createQp _ => 4
  | .createMr _ _ _ => 12
  | .deallocPd _ | .destroyCq _ | .modifyQp _ _ _ | .destroyQp _ | .destroyMr _ => 0

/-- The card does not accept a new memory region and then refuse to report on it. -/
def Verb.Reported (cmd : CommandInterface) : Verb → Prop
  | .createMr _ _ _ => cmd.ReportsNext
  | _ => True

/-- The objects that a verb can change, those that the card has included. -/
structure Session.SameObjects (s s' : Session) : Prop where
  ctx_eq : s'.ctx.objects = s.ctx.objects
  pdNumbers_eq : s'.pdNumbers = s.pdNumbers
  registered_eq : Command.registered s'.card.cmd.log = Command.registered s.card.cmd.log

private theorem ne_of_length {α : Type} (view : ContextObjects → List α) {o o' : ContextObjects}
    (h : (view o').length = (view o).length + 1) : o' ≠ o := by
  rintro rfl
  omega

private theorem Session.unchanged (s : Session) (verb : Verb) :
    Effect s verb s ∧ (verb.Reported s.card.cmd → Session.SameObjects s s) :=
  ⟨.card verb s.card (.nothing verb), fun _ ↦ ⟨rfl, rfl, rfl⟩⟩

section

variable {α β : Type} {l : List α} {i : Nat} {a a' : α}

private theorem exists_of_findIdx? {p : α → Bool} (h : l.findIdx? p = some i) :
    ∃ a, l[i]? = some a ∧ p a = true := by
  obtain ⟨hi, hp, _⟩ := List.findIdx?_eq_some_iff_getElem.mp h
  exact ⟨l[i], List.getElem?_eq_getElem hi, hp⟩

/-- Replacing an object by one with the same key. -/
theorem map_set_of_key {f : α → β} (h : l[i]? = some a) (hf : f a' = f a) :
    (l.set i a').map f = l.map f := by
  rw [List.map_set, hf]
  apply List.ext_getElem?
  intro j
  by_cases hj : i = j
  · subst hj
    rw [List.getElem?_set_self', List.getElem?_map, h]
    rfl
  · rw [List.getElem?_set_ne hj]

private theorem subperm_eraseIdx (f : α → β) (l : List α) (i : Nat) (a' : α) :
    (((l.set i a').eraseIdx i).map f).Subperm (l.map f) := by
  rw [List.eraseIdx_set_eq]
  exact ((List.eraseIdx_sublist l i).map f).subperm

private theorem subperm_swapRemove (f : α → β) (h : l[i]? = some a) (a' : α) :
    ((swapRemove (l.set i a') i).map f).Subperm (l.map f) := by
  have hi : i < (l.set i a').length := by
    rw [List.length_set]
    exact (List.getElem?_eq_some_iff.mp h).1
  exact ((swapRemove_perm hi).map f).subperm.trans (subperm_eraseIdx f l i a')

private theorem ends_runAt {m : EStateM Fault (α × CommandInterface) β} {cmd : CommandInterface}
    {Q : β → List α × CommandInterface → Prop} {E : Fault → List α × CommandInterface → Prop}
    (h : l[i]? = some a) :
    Ends (runAt m i) (l, cmd) Q E ↔
      Ends m (a, cmd) (fun b t ↦ Q b (l.set i t.1, t.2)) fun e t ↦ E e (l.set i t.1, t.2) := by
  unfold Ends runAt
  simp only [h]
  cases m (a, cmd) with
  | ok b t | error e t => exact Iff.rfl

end

private theorem ends_logError {m : EStateM Fault CommandInterface Unit} {cmd : CommandInterface}
    {Q : Unit → CommandInterface → Prop} {E : Fault → CommandInterface → Prop}
    (h : Ends m cmd Q fun e cmd' ↦ e.IsErr ∧ Q () cmd') : Ends (logError m) cmd Q E := by
  unfold Ends at h
  unfold Ends logError
  cases hm : m cmd with
  | ok a cmd' =>
    rw [hm] at h
    exact h
  | error e cmd' =>
    rw [hm] at h
    cases e with
    | err message => exact h.2
    | panic reason => exact h.1.elim

namespace Session

variable {α : Type} {s : Session} {Q : α → Session → Prop} {E : Fault → Session → Prop}

private theorem ends_onCard {m : EStateM Fault Card α} :
    Ends (onCard m) s Q E ↔ Ends m s.card (fun a card ↦ Q a { s with card := card })
      fun e card ↦ E e { s with card := card } := ends_zoom

private theorem ends_onCqs {m : EStateM Fault (List CompletionQueue × CommandInterface) α} :
    Ends (onCqs m) s Q E ↔ Ends m (s.ctx.cqs, s.card.cmd)
      (fun a t ↦ Q a { s with
        ctx := { s.ctx with cqs := t.1 }, card := { s.card with cmd := t.2 } })
      fun e t ↦ E e { s with
        ctx := { s.ctx with cqs := t.1 }, card := { s.card with cmd := t.2 } } := ends_zoom

private theorem ends_onQps {m : EStateM Fault (List QueuePair × CommandInterface) α} :
    Ends (onQps m) s Q E ↔ Ends m (s.ctx.qps, s.card.cmd)
      (fun a t ↦ Q a { s with
        ctx := { s.ctx with qps := t.1 }, card := { s.card with cmd := t.2 } })
      fun e t ↦ E e { s with
        ctx := { s.ctx with qps := t.1 }, card := { s.card with cmd := t.2 } } := ends_zoom

private theorem ends_onMrs {m : EStateM Fault (List MemoryRegion × CommandInterface) α} :
    Ends (onMrs m) s Q E ↔ Ends m (s.ctx.mrs, s.card.cmd)
      (fun a t ↦ Q a { s with
        ctx := { s.ctx with mrs := t.1 }, card := { s.card with cmd := t.2 } })
      fun e t ↦ E e { s with
        ctx := { s.ctx with mrs := t.1 }, card := { s.card with cmd := t.2 } } := ends_zoom

/-- The outcome of a verb is one of its effects. A verb that fails keeps the objects if the card
reports, one that creates an object and returns does not. -/
abbrev HasEffect (m : EStateM Fault Session Answer) (s : Session) (verb : Verb) : Prop :=
  Ends m s
    (fun a s' ↦ Effect s verb s' ∧ a.size = verb.answerSize ∧
      (verb.creates = true → s'.ctx.objects ≠ s.ctx.objects))
    fun e s' ↦ e.OnErr (Effect s verb s' ∧ (verb.Reported s.card.cmd → SameObjects s s'))

private theorem allocPd_effect (caps : Capabilities) : HasEffect (allocPd caps) s .allocPd := by
  simp only [HasEffect, allocPd, ends_bind, ends_get, ends_lift, ends_set, ends_pure, yields_okOr,
    Fault.onErr_err]
  refine ⟨fun pd hpd ↦ ⟨.allocPd pd ?_, rfl, fun _ ↦ ?_⟩, fun _ ↦ unchanged s _⟩
  on_goal 2 => exact ne_of_length ContextObjects.pds (by simp [UContext.objects])
  intro hmem
  have hfree := List.find?_some hpd
  rw [Std.ExtTreeSet.contains_iff_mem.mpr hmem] at hfree
  cases hfree

private theorem deallocPd_effect (pd : Nat) : HasEffect (deallocPd pd) s (.deallocPd pd) := by
  simp only [HasEffect, deallocPd, ends_bind, ends_get, ends_lift, ends_set, ends_pure,
    yields_okOr, Fault.onErr_err]
  refine ⟨fun i hi ↦ ⟨.deallocPd pd _ ?_, rfl, by rintro ⟨⟩⟩, fun _ ↦ unchanged s _⟩
  obtain ⟨pd', hpd', heq⟩ := exists_of_findIdx? hi
  obtain rfl : pd' = pd := eq_of_beq heq
  obtain ⟨hlt, hget⟩ := List.getElem?_eq_some_iff.mp hpd'
  have hperm := List.getElem_cons_eraseIdx_perm hlt
  rw [hget] at hperm
  exact ((swapRemove_perm hlt).cons pd').trans hperm

private theorem createCq_effect (caps : Capabilities) (eqNumber : Option Nat) (process : Process)
    (params : CompletionQueue.Params) :
    HasEffect (createCq caps eqNumber process params) s (.createCq params) := by
  simp only [HasEffect, createCq, ends_bind, ends_get, ends_onCard, Card.ends_withCmd, ends_modify,
    ends_pure]
  refine (CompletionQueue.new_ends _ _ _ _ _ _).mono ?_ ?_
  · rintro cq card' ⟨hnumber, hoffsets⟩
    have hne : UContext.objects { s.ctx with cqs := s.ctx.cqs ++ [cq] } ≠ s.ctx.objects :=
      ne_of_length ContextObjects.cqs (by simp [UContext.objects])
    apply ends_logError
    simp only [CompletionQueue.query, ends_bind, ends_pure, CommandInterface.ends_executeCommand,
      Fault.isErr_err, true_and]
    exact ⟨fun _ ↦ ⟨.createCq params cq _ hnumber hoffsets, rfl, fun _ ↦ hne⟩,
      fun _ ↦ ⟨.createCq params cq _ hnumber hoffsets, rfl, fun _ ↦ hne⟩⟩
  · intro e card' he
    refine he.mono fun h ↦ ⟨.card _ card' ?_, fun _ ↦ ⟨rfl, rfl, h.2⟩⟩
    rcases h.1 with hoffsets | hoffsets
    · rw [hoffsets]
      exact .nothing _
    · rw [hoffsets]
      exact .cqn params

private theorem createQp_effect (caps : Capabilities) (process : Process)
    (params : QueuePair.Params) :
    HasEffect (createQp caps process params) s (.createQp params) := by
  simp only [HasEffect, createQp, ends_bind, ends_get, ends_ite, ends_throw, ends_onCard,
    ends_modify, ends_pure, Fault.onErr_err, not_not]
  refine ⟨fun _ ↦ unchanged s _, fun hpd ↦ ⟨fun _ ↦ unchanged s _, fun _ ↦
    ⟨fun _ ↦ unchanged s _, fun _ ↦ ?_⟩⟩⟩
  refine (QueuePair.new_ends _ _ _ _ _).mono ?_ ?_
  · rintro qp card' ⟨hnumber, hcreated, hoffsets⟩
    refine ⟨.createQp params qp card' hpd (Prod.ext hnumber hcreated.pd_eq) hoffsets, rfl,
      fun _ ↦ ?_⟩
    exact ne_of_length ContextObjects.qps (by simp [UContext.objects])
  · intro e card' he
    refine he.mono fun h ↦ ⟨.card _ card' ?_, fun _ ↦ ⟨rfl, rfl, by rw [h.2]⟩⟩
    rw [h.1]
    exact .nothing _

private theorem createMr_effect (caps : Capabilities) (process : Process) (pd : Nat)
    (data : UserSlice) (access : AccessFlags) :
    HasEffect (createMr caps process pd data access) s (.createMr pd data access) := by
  simp only [HasEffect, createMr, ends_bind, ends_get, ends_ite, ends_throw, ends_onCard,
    ends_modify, ends_pure, Fault.onErr_err, not_not]
  refine ⟨fun _ ↦ unchanged s _, fun hpd ↦ ?_⟩
  refine (allocDmpt_ends _ _ _ _ _ _ _).mono ?_ ?_
  · rintro ⟨mr, metadata⟩ card' ⟨⟨entry, hentry, hindex, hentryPd⟩, hoffsets⟩
    refine ⟨.createMr pd data access mr card' hpd ?_ hoffsets, rfl, fun _ ↦ ?_⟩
    · rw [MemoryRegion.key, hentry, Option.map_some, hindex, hentryPd]
    · exact ne_of_length ContextObjects.mrs (by simp [UContext.objects])
  · intro e card' he
    refine he.mono fun h ↦ ⟨.card _ card' ?_, fun hnext ↦ ⟨rfl, rfl, h.2 hnext⟩⟩
    rcases h.1 with hoffsets | hoffsets
    · rw [hoffsets]
      exact .nothing _
    · rw [hoffsets]
      exact .dmpt pd data access

private theorem destroyCq_effect (number : Nat) :
    HasEffect (destroyCq number) s (.destroyCq number) := by
  simp only [HasEffect, destroyCq, ends_bind, ends_get, ends_lift, ends_onCqs, ends_modify,
    ends_pure, yields_okOr, Fault.onErr_err]
  refine ⟨fun i hi ↦ ?_, fun _ ↦ unchanged s _⟩
  obtain ⟨cq, hcq, -⟩ := exists_of_findIdx? hi
  rw [ends_runAt hcq, CompletionQueue.ends_destroy]
  refine ⟨fun _ ↦ ⟨.cqs _ _ _ (subperm_eraseIdx _ _ _ _), rfl, by rintro ⟨⟩⟩,
    fun hrefused ↦ ⟨.cqs _ _ _ ?_, fun _ ↦
      ⟨?_, rfl, Command.registered_append (.inl hrefused)⟩⟩⟩
  · rw [map_set_of_key hcq rfl]
  · simp only [UContext.objects, map_set_of_key hcq rfl]

private theorem destroyQp_effect (caps : Capabilities) (number : Nat) :
    HasEffect (destroyQp caps number) s (.destroyQp number) := by
  simp only [HasEffect, destroyQp, ends_bind, ends_get, ends_lift, ends_onQps, ends_modify,
    ends_pure, yields_okOr, Fault.onErr_err]
  refine ⟨fun i hi ↦ ?_, fun _ ↦ unchanged s _⟩
  obtain ⟨qp, hqp, -⟩ := exists_of_findIdx? hi
  rw [ends_runAt hqp, QueuePair.ends_destroy]
  refine ⟨fun _ ↦ ?_, fun _ ↦ ⟨fun _ ↦ ?_, fun hrefused ↦ ?_⟩⟩
  · exact ⟨.qps _ _ _ (subperm_swapRemove _ hqp _), rfl, by rintro ⟨⟩⟩
  · exact ⟨.qps _ _ _ (subperm_swapRemove _ hqp _), rfl, by rintro ⟨⟩⟩
  · refine ⟨.qps _ _ _ ?_, fun _ ↦ ⟨?_, rfl, Command.registered_append (.inl hrefused)⟩⟩
    · rw [map_set_of_key hqp rfl]
    · simp only [UContext.objects, map_set_of_key hqp rfl]

private theorem destroyMr_effect (index : Nat) :
    HasEffect (destroyMr index) s (.destroyMr index) := by
  simp only [HasEffect, destroyMr, ends_bind, ends_get, ends_lift, ends_onMrs, ends_modify,
    ends_pure, yields_okOr, Fault.onErr_err]
  refine ⟨fun i hi ↦ ?_, fun _ ↦ unchanged s _⟩
  obtain ⟨mr, hmr, -⟩ := exists_of_findIdx? hi
  have hfailed : ∀ cmd', Command.registered cmd'.log = Command.registered s.card.cmd.log →
      let s' : Session := { s with
        ctx := { s.ctx with mrs := s.ctx.mrs.set i mr }, card := { s.card with cmd := cmd' } }
      Effect s (.destroyMr index) s' ∧ (True → SameObjects s s') := by
    refine fun cmd' hregistered ↦ ⟨.mrs _ _ _ ?_, fun _ ↦ ⟨?_, rfl, hregistered⟩⟩
    · rw [map_set_of_key hmr rfl]
    · simp only [UContext.objects, map_set_of_key hmr rfl]
  rw [ends_runAt hmr, MemoryRegion.ends_destroy]
  refine ⟨fun index' _ ↦ ⟨fun _ ↦ ?_, fun hrefused ↦ ?_⟩, fun _ ↦ ?_⟩
  · exact ⟨.mrs _ _ _ (subperm_swapRemove _ hmr _), rfl, by rintro ⟨⟩⟩
  · exact hfailed _ (Command.registered_append (.inl hrefused))
  · exact hfailed _ rfl

private theorem modifyQp_effect (caps : Capabilities) (number : Nat) (attr : QueuePairAttr)
    (attrMask : QueuePairAttrMask) :
    HasEffect (modifyQp caps number attr attrMask) s (.modifyQp number attr attrMask) := by
  simp only [HasEffect, modifyQp, ends_bind, ends_get, ends_lift, ends_onQps, ends_pure,
    yields_okOr, Fault.onErr_err]
  refine ⟨fun i hi ↦ ?_, fun _ ↦ unchanged s _⟩
  obtain ⟨qp, hqp, -⟩ := exists_of_findIdx? hi
  have hkeep : ∀ t : QueuePair × CommandInterface, QueuePair.SameObject qp t.1 →
      QueuePair.Lawful (qp, s.card.cmd) t → let s' : Session := { s with
        ctx := { s.ctx with qps := s.ctx.qps.set i t.1 }, card := { s.card with cmd := t.2 } }
      Effect s (.modifyQp number attr attrMask) s' ∧ (True → SameObjects s s') := by
    intro t hsame hlawful
    have hkey : t.1.key = qp.key := by
      have heq := congrArg QueuePair.key hsame.eq
      exact heq
    have hnumber : t.1.number = qp.number := congrArg Prod.fst hkey
    refine ⟨.qps _ _ _ ?_, fun _ ↦ ⟨?_, rfl, hlawful.registered⟩⟩
    · rw [map_set_of_key hqp hkey]
    · simp only [UContext.objects, map_set_of_key hqp hnumber]
  rw [ends_runAt hqp]
  refine (QueuePair.modify_ends caps attr attrMask qp s.card.cmd).mono ?_ ?_
  · intro _ t h
    exact ⟨(hkeep t h.2 h.1).1, rfl, by rintro ⟨⟩⟩
  · intro e t h
    exact h.1.mono fun h ↦ hkeep t h.2 h.1

end Session

/-- Every verb, whether it returns or fails, has one of the effects. -/
theorem Mlx4Device.body_effect (dev : Mlx4Device) (process : Process) (verb : Verb) (s : Session) :
    Session.HasEffect (dev.body process verb) s verb := by
  cases verb with
  | allocPd => exact Session.allocPd_effect _
  | deallocPd pd => exact Session.deallocPd_effect pd
  | createCq params => exact Session.createCq_effect _ _ _ params
  | destroyCq number => exact Session.destroyCq_effect number
  | createQp params => exact Session.createQp_effect _ _ params
  | modifyQp number attr attrMask => exact Session.modifyQp_effect _ number attr attrMask
  | destroyQp number => exact Session.destroyQp_effect _ number
  | createMr pd data access => exact Session.createMr_effect _ _ pd data access
  | destroyMr index => exact Session.destroyMr_effect index

end D3OS.Mlx4
