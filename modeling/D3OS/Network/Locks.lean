import D3OS.Lib.Runs

/-!
# The locks of the network functions

`os/kernel/src/network/mod.rs` has three global locks. `connect_tcp` takes `SOCKETS` before
`INTERFACES` and a name lookup takes them the other way round; `close_socket` and `poll_sockets`
take `SOCKET_PROCESS` inside `SOCKETS` and `close_sockets_for_process` does the reverse.
-/

namespace D3OS.Network.Locking

open Lib

/-- `INTERFACES`, `SOCKETS` and `SOCKET_PROCESS`, `mod.rs:25-31`. -/
inductive Lock where
  | interfaces
  | sockets
  | socketProcess
  deriving DecidableEq

/-- The two ways of taking an `RwLock`. -/
inductive Mode where
  | read
  | write
  deriving DecidableEq

/-- What a function does with a lock: it waits for it, tries it, or drops the guard. -/
inductive Action where
  | acquire (lock : Lock) (mode : Mode)
  | tryWrite (lock : Lock)
  | release (lock : Lock)

/-- The functions, by what they do with the locks. -/
inductive Call where
  | openSocket
  /-- A function that only runs `get_socket_for_current_process`: `bind`, `send`, `receive`. -/
  | use
  | connect
  /-- A name lookup starts with `lookup` and goes on with rounds of `query`. -/
  | lookup
  | query
  | addresses
  | closeSocket
  | poll
  | cleanup
  deriving DecidableEq

/-- The scope of a guard. -/
def scope (lock : Lock) (mode : Mode) (inner : List Action) : List Action :=
  .acquire lock mode :: inner ++ [.release lock]

/-- What a call does with the locks, `mod.rs:132-540`. -/
def Call.actions : Call → List Action
  | .openSocket => scope .sockets .write [] ++ scope .socketProcess .write []
  | .use => scope .socketProcess .read [] ++ scope .sockets .write []
  | .connect =>
    scope .socketProcess .read [] ++ scope .sockets .write (scope .interfaces .write [])
  | .lookup => scope .interfaces .write (scope .sockets .write [])
  | .query => scope .sockets .write []
  | .addresses => scope .interfaces .read []
  | .closeSocket =>
    scope .sockets .write (scope .socketProcess .read [] ++ scope .socketProcess .write [])
  | .poll =>
    [.tryWrite .interfaces, .tryWrite .sockets] ++ scope .socketProcess .read [] ++
      [.release .sockets, .release .interfaces]
  | .cleanup => scope .socketProcess .write (scope .sockets .write [])

/-- The guards after an action. -/
def Action.guards (held : List (Lock × Mode)) : Action → List (Lock × Mode)
  | .acquire lock mode => (lock, mode) :: held
  | .tryWrite lock => (lock, .write) :: held
  | .release lock => held.filter (·.1 ≠ lock)

/-- The guards that a call has after its first actions. -/
def Call.held (call : Call) (done : Nat) : List (Lock × Mode) :=
  (call.actions.take done).foldl Action.guards []

/-- What a call needs for its next action, if it waits for it. -/
def Call.wants (call : Call) (done : Nat) : Option (Lock × Mode) :=
  match call.actions[done]? with
  | some (.acquire lock mode) => some (lock, mode)
  | _ => none

/-- The calls of some threads, with the number of actions that each has taken. A call that has taken
all of them has returned. -/
def Threads (n : Nat) : Type := Fin n → Call × Nat

/-- A thread begins a call when the one before has returned, or takes its next action. -/
inductive Event (n : Nat) where
  | begin (t : Fin n) (call : Call)
  | advance (t : Fin n)

namespace Threads

variable {n : Nat}

/-- No thread is in a call. -/
def idle : Threads n := fun _ ↦ (.query, Call.query.actions.length)

/-- The guards of a thread. -/
def held (s : Threads n) (t : Fin n) : List (Lock × Mode) := (s t).1.held (s t).2

/-- The lock can be taken. -/
abbrev Free (s : Threads n) (lock : Lock) (mode : Mode) : Prop :=
  ∀ t, ∀ g ∈ s.held t, g.1 = lock → mode = .read ∧ g.2 = .read

/-- An action that has to wait changes nothing; a `try_write` that fails ends the call and drops its
guards. -/
def step (s : Threads n) : Event n → Threads n
  | .begin t call =>
    if (s t).1.actions.length ≤ (s t).2 then Function.update s t (call, 0) else s
  | .advance t =>
    let next : Threads n := Function.update s t ((s t).1, (s t).2 + 1)
    match (s t).1.actions[(s t).2]? with
    | some (.acquire lock mode) => if s.Free lock mode then next else s
    | some (.tryWrite lock) =>
      if s.Free lock .write then next
      else Function.update s t ((s t).1, (s t).1.actions.length)
    | some (.release _) => next
    | none => s

/-- What a thread waits for, unless it can take it. -/
def wants (s : Threads n) (t : Fin n) : Option (Lock × Mode) := (s t).1.wants (s t).2

/-- The thread needs a lock that the other one holds. -/
abbrev Waits (s : Threads n) (t t' : Fin n) : Prop :=
  ∃ w, s.wants t = some w ∧ ∃ g ∈ s.held t', g.1 = w.1 ∧ ¬ (w.2 = .read ∧ g.2 = .read)

/-- The thread holds the lock in the call. -/
abbrev HoldsIn (s : Threads n) (t : Fin n) (call : Call) (lock : Lock) : Prop :=
  (s t).1 = call ∧ ∃ g ∈ s.held t, g.1 = lock

/-- No `connect_tcp` holds `SOCKETS` while a name lookup holds `INTERFACES`, and no `close_socket`
and no `poll_sockets` holds `SOCKETS` while a cleanup holds `SOCKET_PROCESS`. -/
abbrev Apart (s : Threads n) : Prop :=
  ∀ t t', (s.HoldsIn t .connect .sockets → ¬ s.HoldsIn t' .lookup .interfaces) ∧
    (s.HoldsIn t .closeSocket .sockets ∨ s.HoldsIn t .poll .sockets →
      ¬ s.HoldsIn t' .cleanup .socketProcess)

end Threads

/-- An order of the locks, with a name lookup or a cleanup under way or not. -/
def rank (lookup cleanup : Bool) : Lock → Nat
  | .interfaces => if lookup then 1 else 3
  | .sockets => 2
  | .socketProcess => if cleanup then 0 else 4

private theorem rank_lt (lookup cleanup : Bool) (l : Lock) : rank lookup cleanup l < 5 := by
  cases l <;> cases lookup <;> cases cleanup <;> decide

private theorem Call.rises (call : Call) (lookup cleanup : Bool) : ∀ done : Fin 6,
    let holds := fun call' l ↦ call = call' ∧ ∃ g ∈ call.held done, g.1 = l
    (holds .connect .sockets → lookup = false) → (holds .lookup .interfaces → lookup = true) →
    (holds .closeSocket .sockets ∨ holds .poll .sockets → cleanup = false) →
    (holds .cleanup .socketProcess → cleanup = true) →
    ∀ g ∈ call.held done, ∀ w, call.wants done = some w →
      rank lookup cleanup g.1 < rank lookup cleanup w.1 := by
  cases call <;> cases lookup <;> cases cleanup <;> decide

namespace Threads

variable {n : Nat} {s : Threads n}

/-- The order that the calls under way keep to. -/
def rank (s : Threads n) : Lock → Nat :=
  Locking.rank (∃ t, s.HoldsIn t .lookup .interfaces) (∃ t, s.HoldsIn t .cleanup .socketProcess)

private theorem rises (h : s.Apart) {t : Fin n} {g w : Lock × Mode} (hg : g ∈ s.held t)
    (hw : s.wants t = some w) : s.rank g.1 < s.rank w.1 := by
  have hdone : (s t).2 < 6 := by
    by_contra hge
    have hlength : ∀ call : Call, call.actions.length ≤ 6 := by
      intro call
      cases call <;> decide
    have hnone : s.wants t = none := by
      rw [wants, Call.wants, List.getElem?_eq_none (Nat.le_trans (hlength _) (Nat.not_lt.mp hge))]
    exact nomatch hnone.symm.trans hw
  refine (s t).1.rises _ _ ⟨(s t).2, hdone⟩ (fun hc ↦ ?_) (fun hc ↦ ?_) (fun hc ↦ ?_) (fun hc ↦ ?_)
    g hg w hw
  · exact decide_eq_false fun ⟨t', ht'⟩ ↦ (h t t').1 hc ht'
  · exact decide_eq_true ⟨t, hc⟩
  · exact decide_eq_false fun ⟨t', ht'⟩ ↦ (h t t').2 hc ht'
  · exact decide_eq_true ⟨t, hc⟩

private theorem not_cyclic (h : s.Apart) : ¬ ∃ t, Relation.TransGen s.Waits t t := by
  rintro ⟨t, hcycle⟩
  let height : Fin n → Nat := fun t ↦ (s.wants t).elim 5 fun w ↦ s.rank w.1
  have hrises : ∀ t t', s.Waits t t' → height t < height t' := by
    rintro t t' ⟨w, hw, g, hg, heq, -⟩
    simp only [height, hw, Option.elim_some, ← heq]
    cases hw' : s.wants t' with
    | none => exact rank_lt _ _ _
    | some w' => exact rises h hg hw'
  have hlt : Relation.TransGen (· < ·) (height t) (height t) :=
    Relation.TransGen.lift height hrises t t hcycle
  rw [Relation.transGen_eq_self] at hlt
  exact Nat.lt_irrefl _ hlt

/-- In every run in which these calls stay apart, no threads wait for each other in a cycle. -/
theorem not_cyclic_of_apart {events : List (Event n)}
    (h : Throughout step (fun s event ↦ (s.step event).Apart) idle events) :
    ¬ ∃ t, Relation.TransGen (events.foldl step idle).Waits t t :=
  not_cyclic (h.invariant (I := Apart) (fun _ _ ↦ ⟨nofun, nofun⟩) fun _ _ _ h ↦ h)

/-- A lookup waits for `SOCKETS` until a `close_socket` drops it. -/
theorem not_cyclic_of_apart_sample :
    ¬ ∃ t, Relation.TransGen (([.begin 0 .closeSocket, .begin 1 .lookup, .advance 0, .advance 1,
      .advance 1, .advance 0] : List (Event 2)).foldl step idle).Waits t t :=
  not_cyclic_of_apart (by decide)

/-- A `connect_tcp` with `SOCKETS` waits for the `INTERFACES` of a lookup that waits for
`SOCKETS`. -/
theorem connect_lookup_cyclic :
    ∃ t, Relation.TransGen (([.begin 0 .connect, .begin 1 .lookup, .advance 0, .advance 0,
      .advance 0, .advance 1] : List (Event 2)).foldl step idle).Waits t t :=
  ⟨0, .tail (.single (b := 1) (by decide)) (by decide)⟩

end Threads

end D3OS.Network.Locking
