/-
Uses of a virtual machine and of a compiler as data, so that they can be listed, replayed and
reasoned about in any order and number.
-/
import CodeRecovery.FlowOps

set_option autoImplicit false

namespace CodeRecovery

/-- One use of a virtual machine. -/
inductive StackCall (V : Type) where
  | constant (w : Width) (n : Word)
  | push (w : Width) (value : V)
  | pop (w : Width)
  | getVreg (w : Width) (index : Nat)
  | setVreg (w : Width) (index : Nat) (value : V)
  | getVsp
  | setVsp (value : V)
  | getRegister (r : SavedRegister)
  | setRegister (r : SavedRegister) (value : V)
  | binary (op : BinaryOp) (w : Width) (lhs rhs : V)
  | signExtend (w : Width) (value : V)
  | testZero (w : Width) (value : V)
  | testNonzero (w : Width) (value : V)
  | zeroFlag (w : Width) (value : V)
  | load (w : Width) (address : V)
  | store (w : Width) (address value : V)
  | saveRegisters
  | restoreRegisters
  | virtualRegisters
  /-- Does what the handler at a position of the program does. -/
  | perform (position : Nat)

/-- What a use of a virtual machine gives back. -/
inductive StackReply (V : Type) where
  | done
  | value (v : V)
  | count (n : Nat)
  | outcome (o : Outcome V)

/-- One use of a compiler. -/
inductive FlowCall (V : Type) where
  | stack (call : StackCall V)
  | start
  | enter (position : Nat)
  | jump (next : Destination)
  | branch (condition : V) (taken : Nat) (otherwise : Destination)
  | ret
  | pending
  | compile

/-- What a use of a compiler gives back. -/
inductive FlowReply (V : Type) where
  | stack (reply : StackReply V)
  | done
  | visit (v : Visit)
  | position (p : Option Nat)

section

variable {σ V : Type}

/-- Makes one use of a virtual machine. -/
def StackCall.run [StackOps σ V] (p : Program) : StackCall V → Action σ (StackReply V)
  | constant w n => .value <$> StackOps.constant w n
  | push w v => do StackOps.push w v; return .done
  | pop w => .value <$> StackOps.pop w
  | getVreg w index => .value <$> StackOps.getVreg w index
  | setVreg w index v => do StackOps.setVreg w index v; return .done
  | getVsp => .value <$> StackOps.getVsp
  | setVsp v => do StackOps.setVsp v; return .done
  | getRegister r => .value <$> StackOps.getRegister r
  | setRegister r v => do StackOps.setRegister r v; return .done
  | binary op w lhs rhs => .value <$> StackOps.binary op w lhs rhs
  | signExtend w v => .value <$> StackOps.signExtend w v
  | testZero w v => .value <$> StackOps.testZero w v
  | testNonzero w v => .value <$> StackOps.testNonzero w v
  | zeroFlag w v => .value <$> CodeRecovery.zeroFlag w v
  | load w address => .value <$> StackOps.load w address
  | store w address v => do StackOps.store w address v; return .done
  | saveRegisters => do StackOps.saveRegisters; return .done
  | restoreRegisters => do StackOps.restoreRegisters; return .done
  | virtualRegisters => return .count (StackOps.virtualRegisters (← get))
  | perform position => do
    let h ← p.fetch position
    .outcome <$> h.perform position

/-- Makes one use of a compiler. -/
def FlowCall.run [FlowOps σ V] (p : Program) : FlowCall V → Action σ (FlowReply V)
  | stack call => .stack <$> call.run p
  | start => do FlowOps.start p; return .done
  | enter position => .visit <$> FlowOps.enter p position
  | jump next => do FlowOps.jump p next; return .done
  | branch condition taken otherwise => do
    FlowOps.branch p condition taken otherwise
    return .done
  | ret => do FlowOps.ret; return .done
  | pending => return .position (FlowOps.pending p (← get))
  | compile => do p.compile; return .done

end

end CodeRecovery
