import D3OS.Lib.Stateful
import D3OS.Mlx4.Contexts

/-!
# Commands to the card

`os/kernel/src/device/infiniband/mlx4/cmd.rs`. The card is not modelled: what it answers
to each command is a parameter of the command interface, which logs the commands that
were executed. A status byte outside of `ReturnStatus` is not one of the answers.
-/

namespace D3OS.Mlx4

open Lib

/-- The state after a call that returned a value or an error. -/
def afterCall {σ α : Type} (m : EStateM Fault σ α) (s : σ) : Except Panic σ :=
  match m s with
  | .ok _ s' => .ok s'
  | .error (.err _) s' => .ok s'
  | .error (.panic reason) _ => .error reason

/-- What a call leaves behind when it does not panic. -/
theorem afterCall_yields {σ α : Type} {m : EStateM Fault σ α} {s : σ} {P : σ → Prop}
    {E : Fault → σ → Prop} (h : Ends m s (fun _ s' ↦ P s') E)
    (hE : ∀ e s', E e s' → e.OnErr (P s')) : Yields (afterCall m s) P fun _ ↦ True := by
  unfold afterCall
  unfold Ends at h
  split
  next hm =>
    rw [hm] at h
    exact h
  next hm =>
    rw [hm] at h
    exact hE _ _ h
  next => trivial

/-- A call that does not panic. -/
theorem afterCall_returns {σ α : Type} {m : EStateM Fault σ α} {s : σ} {P : σ → Prop}
    {E : Fault → σ → Prop} (h : Ends m s (fun _ s' ↦ P s') E)
    (hE : ∀ e s', E e s' → e.IsErr ∧ P s') : Yields (afterCall m s) P fun _ ↦ False := by
  unfold afterCall
  unfold Ends at h
  split
  next hm =>
    rw [hm] at h
    exact h
  next hm =>
    rw [hm] at h
    exact (hE _ _ h).2
  next hm =>
    rw [hm] at h
    exact (hE _ _ h).1

/-- `Opcode`, `cmd.rs:33`, as far as the verbs use it. -/
inductive Opcode where
  | sw2HwMpt
  | queryMpt
  | hw2SwMpt
  | sw2HwCq
  | hw2SwCq
  | queryCq
  | rst2InitQp
  | init2RtrQp
  | rtr2RtsQp
  | any2RstQp
  | init2InitQp
  deriving DecidableEq, Repr

/-- `ReturnStatus`, `cmd.rs:396`. -/
inductive ReturnStatus where
  | ok
  | internalErr
  | badOp
  | badParam
  | badSysState
  | badResource
  | resourceBusy
  | exceedLim
  | badResState
  | badIndex
  | badNvmem
  | icmError
  | badPerm
  | badQpState
  | regBound
  | badPkt
  | badSize
  | prevTimeout
  | pollTimeout
  deriving DecidableEq, Repr

/-- The text a status is converted to, the name of its variant. -/
def ReturnStatus.text : ReturnStatus → String
  | .ok => "Ok"
  | .internalErr => "InternalErr"
  | .badOp => "BadOp"
  | .badParam => "BadParam"
  | .badSysState => "BadSysState"
  | .badResource => "BadResource"
  | .resourceBusy => "ResourceBusy"
  | .exceedLim => "ExceedLim"
  | .badResState => "BadResState"
  | .badIndex => "BadIndex"
  | .badNvmem => "BadNvmem"
  | .icmError => "IcmError"
  | .badPerm => "BadPerm"
  | .badQpState => "BadQpState"
  | .regBound => "RegBound"
  | .badPkt => "BadPkt"
  | .badSize => "BadSize"
  | .prevTimeout => "PrevTimeout"
  | .pollTimeout => "PollTimeout"

/-- `InputParam`, `cmd.rs:227`; a mailbox is given by the structure written to it. -/
inductive InputParam where
  | empty
  | completionQueue (context : CompletionQueueContext)
  | stateTransition (parameter : StateTransitionCommandParameter)
  | memoryProtection (entry : DmptEntry)
  deriving DecidableEq, Repr

/-- A command that was executed and the status it ended with. -/
structure Command where
  opcode : Opcode
  input : InputParam
  inputModifier : Nat
  status : ReturnStatus
  deriving DecidableEq, Repr

/-- The objects of one kind that the card has after a list of commands: those that it accepted
with the opcode `give` and did not drop with the opcode `drop`. -/
def Command.held (give drop : Opcode) (log : List Command) : List Nat :=
  log.foldl (fun held command ↦
    if command.status ≠ .ok then held
    else if command.opcode = give then held ++ [command.inputModifier]
    else if command.opcode = drop then held.erase command.inputModifier
    else held) []

/-- The memory regions and the completion queues that the card has. -/
def Command.registered (log : List Command) : List Nat × List Nat :=
  (Command.held .sw2HwMpt .hw2SwMpt log, Command.held .sw2HwCq .hw2SwCq log)

/-- A command that is refused, or that is about neither of them, leaves the objects alone. -/
theorem Command.registered_append {log : List Command} {command : Command}
    (h : command.status ≠ .ok ∨
      command.opcode ∉ [Opcode.sw2HwMpt, .hw2SwMpt, .sw2HwCq, .hw2SwCq]) :
    Command.registered (log ++ [command]) = Command.registered log := by
  simp only [Command.registered, Command.held, List.foldl_append, List.foldl_cons, List.foldl_nil]
  rcases h with h | h
  · rw [if_pos h, if_pos h]
  · simp only [List.mem_cons, List.not_mem_nil, or_false, not_or] at h
    simp [h]

/-- What the card answers: a status and, for `QUERY_MPT`, the fields of the entry that the
driver reads back from the output mailbox. -/
structure Reply where
  status : ReturnStatus
  index : Nat
  length : BitVec 64
  lkey : BitVec 32
  deriving DecidableEq, Repr

/-- `CommandInterface`, `cmd.rs:145`: the answers to come, by the number of the command,
and the commands executed so far. -/
structure CommandInterface where
  replies : Nat → Reply
  log : List Command

namespace CommandInterface

/-- The answer to the next command. -/
def nextReply (cmd : CommandInterface) : Reply := cmd.replies cmd.log.length

/-- The interface after the next command. -/
def record (cmd : CommandInterface) (opcode : Opcode) (input : InputParam) (inputModifier : Nat) :
    CommandInterface :=
  { cmd with log := cmd.log ++ [⟨opcode, input, inputModifier, cmd.nextReply.status⟩] }

/-- The card answers the next command, or refuses the one before it. -/
def ReportsNext (cmd : CommandInterface) : Prop :=
  cmd.nextReply.status = .ok → (cmd.replies (cmd.log.length + 1)).status = .ok

/-- `execute_command`, `cmd.rs:269`. -/
def executeCommand (opcode : Opcode) (input : InputParam) (inputModifier : Nat) :
    EStateM Fault CommandInterface Reply := do
  let cmd ← get
  set (cmd.record opcode input inputModifier)
  if cmd.nextReply.status = .ok then return cmd.nextReply
  else throw (.err cmd.nextReply.status.text)

/-- A command is logged whatever it returns, and succeeds as its status says. -/
@[simp] theorem ends_executeCommand {opcode : Opcode} {input : InputParam} {inputModifier : Nat}
    {cmd : CommandInterface} {Q : Reply → CommandInterface → Prop}
    {E : Fault → CommandInterface → Prop} :
    Ends (executeCommand opcode input inputModifier) cmd Q E ↔
      (cmd.nextReply.status = .ok → Q cmd.nextReply (cmd.record opcode input inputModifier)) ∧
      (cmd.nextReply.status ≠ .ok →
        E (.err cmd.nextReply.status.text) (cmd.record opcode input inputModifier)) := by
  simp only [executeCommand, ends_bind, ends_get, ends_set]
  by_cases h : cmd.nextReply.status = .ok
  · simp [h]
  · simp [h]

end CommandInterface

end D3OS.Mlx4
