/-
Compiled code in lock step with the simulator.

Both backends cut a program into blocks, one per handler, and add a block or two of their own around
them. A `BlockRun` is what running such code looks like from outside: it enters blocks one after the
other and may leave. `LockStep` states what it means for such a run to do what the simulator does;
it is said of a backend's code without reference to how that code came about.

The last part reduces it to one handler at a time. `Simulation` asks what the block of a single
handler does; `Simulation.lockStep` then follows both runs from their start, and the induction is on
the number of blocks entered.
-/
import CodeRecovery.Proofs.Stepping

set_option autoImplicit false

namespace CodeRecovery

/-- Where a run over blocks stands. -/
inductive Stage (B S R : Type) where
  /-- In front of a block. -/
  | entering (block : B) (state : S)
  /-- Outside of the code, with a result. -/
  | left (result : R) (state : S)
  /-- In the middle of something that has no meaning. -/
  | stuck

/-- A way of running code block by block from some start. -/
structure BlockRun (B S R : Type) where
  /-- What a block leads to. -/
  run : B → S → Stage B S R
  start : Stage B S R
  /-- Whether a block belongs to a handler. -/
  isHandler : B → Bool

namespace BlockRun

variable {B S R : Type} (r : BlockRun B S R)

/-- Runs the next block, if there is one. A run that is outside of the code, or stuck, stays where
it is. -/
def next : Stage B S R → Stage B S R
  | .entering block state => r.run block state
  | .left result state => .left result state
  | .stuck => .stuck

/-- Where the run stands after a number of blocks. -/
def after : Nat → Stage B S R
  | 0 => r.start
  | n + 1 => r.next (after n)

/-- Whether a stage is in front of the block of a handler. -/
def atHandler : Stage B S R → Bool
  | .entering block _ => r.isHandler block
  | _ => false

/-- How many of the first `n` blocks belong to handlers. The blocks around them have no counterpart
in the simulator, so steps are counted by these. -/
def handlersBefore : Nat → Nat
  | 0 => 0
  | n + 1 => handlersBefore n + if r.atHandler (r.after n) then 1 else 0

/-- The handler block that is entered after `k` others is `block`, and `state` is in front of it. -/
def Enters (k : Nat) (block : B) (state : S) : Prop :=
  ∃ n, r.after n = .entering block state ∧ r.isHandler block = true ∧ r.handlersBefore n = k

/-- The run leaves the code after entering exactly `k` handler blocks. -/
def Leaves (k : Nat) (result : R) (state : S) : Prop :=
  ∃ n, r.after n = .left result state ∧ r.handlersBefore n = k

end BlockRun

section

variable {B S R : Type}

/-- **The run does what the simulator does on the program, handler by handler.** `blockAt` tells the
block of a position, `Agrees` when a state of the run is that of a simulator, and `Result` when the
run's result is the one the simulator ends with. -/
structure LockStep (r : BlockRun B S R) (p : Program) (machine : Simulator)
    (blockAt : Nat → Option B) (Agrees : S → Simulator → Prop) (Result : R → Simulator → Prop) :
    Prop where
  /-- The block of every handler that the simulator comes to is entered, in turn. -/
  enters : ∀ {k position m}, machine.Reaches p k position m →
    ∃ block state, blockAt position = some block ∧ r.Enters k block state ∧ Agrees state m
  /-- No other block of a handler is entered. -/
  reaches : ∀ {k position block state}, blockAt position = some block → r.Enters k block state →
    ∃ m, machine.Reaches p k position m ∧ Agrees state m
  /-- When the simulator ends, the code is left, after as many handlers. -/
  leaves : ∀ {n k m}, (Simulator.run p n).run machine = .ok (some k) m →
    ∃ result state, r.Leaves k result state ∧ Result result m ∧ Agrees state m
  /-- The code is left only when the simulator ends. -/
  ends : ∀ {k result state}, r.Leaves k result state →
    ∃ m, (∀ n, k ≤ n → (Simulator.run p n).run machine = .ok (some k) m) ∧ Result result m ∧
      Agrees state m
  /-- The simulator never fails. -/
  runs : ∀ n, ∃ steps m, (Simulator.run p n).run machine = .ok steps m
  /-- The code never does anything without a meaning. -/
  safe : ∀ n, r.after n ≠ .stuck

/-- A block leaves the code, at once or through a block that belongs to no handler. A backend may
send all ways out through one shared block. -/
def BlockRun.LeadsOut (r : BlockRun B S R) (block : B) (state : S) (result : R) (last : S) : Prop :=
  r.run block state = .left result last ∨
    ∃ closing state', r.isHandler closing = false ∧ r.run block state = .entering closing state' ∧
      r.run closing state' = .left result last

/-- What the block of a handler has to do for the code to be in lock step. `Live` singles out the
positions that matter, and `Related` is `Agrees` with whatever else the code relies on. Nothing is
said of more than one block at a time. -/
structure Simulation (r : BlockRun B S R) (p : Program) (machine : Simulator)
    (blockAt : Nat → Option B) (Live : Nat → Prop) (Related : S → Simulator → Prop)
    (Result : R → Simulator → Prop) : Prop where
  isHandler : ∀ {position block}, blockAt position = some block → r.isHandler block = true
  injective : ∀ {position position' block}, blockAt position = some block →
    blockAt position' = some block → position = position'
  live_zero : Live 0
  /-- The run starts at the first handler, or in a block that leads there. -/
  start : ∃ block state, blockAt 0 = some block ∧ Related state machine ∧
    (r.start = .entering block state ∨ ∃ opening state', r.isHandler opening = false ∧
      r.start = .entering opening state' ∧ r.run opening state' = .entering block state)
  step : ∀ {position block state m}, Live position → blockAt position = some block →
    Related state m → ∃ progress m', (Simulator.step p position).run m = .ok progress m' ∧
      match progress with
      | .advance next _ => Live next ∧ ∃ block' state', blockAt next = some block' ∧
          r.run block state = .entering block' state' ∧ Related state' m'
      | .exit => ∃ result state', r.LeadsOut block state result state' ∧ Result result m' ∧
          Related state' m'

/-! ## From single handlers to whole runs -/

/-- After `n` blocks, `k` of them handlers, the code is in front of the handler that the simulator
has in front of it. It is the invariant of the two runs. -/
structure Abreast (r : BlockRun B S R) (p : Program) (machine : Simulator)
    (blockAt : Nat → Option B) (Live : Nat → Prop) (Related : S → Simulator → Prop)
    (n k position : Nat) (m : Simulator) : Prop where
  reaches : machine.Reaches p k position m
  live : Live position
  entering : ∃ block state, blockAt position = some block ∧ r.after n = .entering block state ∧
    Related state m
  handlers : r.handlersBefore n = k

/-- The simulator has ended, and the code is left or is in its closing block. The two stages are one
case, since the second follows the first by itself. -/
structure Departing (r : BlockRun B S R) (p : Program) (machine : Simulator)
    (Related : S → Simulator → Prop) (Result : R → Simulator → Prop) (n k : Nat) (m : Simulator) :
    Prop where
  exits : machine.Exits p k m
  leaving : ∃ result state, Result result m ∧ Related state m ∧
    (r.after n = .left result state ∨ ∃ closing state', r.isHandler closing = false ∧
      r.after n = .entering closing state' ∧ r.run closing state' = .left result state)
  handlers : r.handlersBefore n = k

/-- A stage further the code is left for good. -/
theorem Departing.succ_left {r : BlockRun B S R} {p : Program} {machine : Simulator}
    {Related : S → Simulator → Prop} {Result : R → Simulator → Prop} {n k : Nat} {m : Simulator}
    (h : Departing r p machine Related Result n k m) :
    ∃ result state, r.after (n + 1) = .left result state ∧ r.handlersBefore (n + 1) = k ∧
      Result result m ∧ Related state m := by
  -- Either nothing is left to run, or the closing block is, and that one counts as no handler.
  obtain ⟨result, state, hresult, hrel, hleft | ⟨closing, state', hclosing, hafter, hrun⟩⟩ :=
    h.leaving
  · refine ⟨result, state, ?_, ?_, hresult, hrel⟩
    · rw [BlockRun.after, hleft, BlockRun.next]
    · simp [BlockRun.handlersBefore, hleft, BlockRun.atHandler, h.handlers]
  · refine ⟨result, state, ?_, ?_, hresult, hrel⟩
    · rw [BlockRun.after, hafter, BlockRun.next, hrun]
    · simp [BlockRun.handlersBefore, hafter, BlockRun.atHandler, hclosing, h.handlers]

/-- The simulator's end is for good, so departing goes on. -/
theorem Departing.succ {r : BlockRun B S R} {p : Program} {machine : Simulator}
    {Related : S → Simulator → Prop} {Result : R → Simulator → Prop} {n k : Nat} {m : Simulator}
    (h : Departing r p machine Related Result n k m) :
    Departing r p machine Related Result (n + 1) k m := by
  obtain ⟨result, state, hleft, hhandlers, hresult, hrel⟩ := h.succ_left
  exact ⟨h.exits, ⟨result, state, hresult, hrel, .inl hleft⟩, hhandlers⟩

namespace Simulation

variable {r : BlockRun B S R} {p : Program} {machine : Simulator} {blockAt : Nat → Option B}
  {Live : Nat → Prop} {Related : S → Simulator → Prop} {Result : R → Simulator → Prop}

/-- At its start the code is in front of the first handler, or one block away from it, if a block in
front sets up what the handlers rely on. -/
theorem abreast_start (h : Simulation r p machine blockAt Live Related Result) :
    Abreast r p machine blockAt Live Related 0 0 0 machine ∨
      ∃ opening state, r.isHandler opening = false ∧ r.after 0 = .entering opening state ∧
        Abreast r p machine blockAt Live Related 1 0 0 machine := by
  obtain ⟨block, state, hblock, hrel, hstart | ⟨opening, state', hopening, hstart, hrun⟩⟩ := h.start
  · exact .inl ⟨.zero, h.live_zero, ⟨block, state, hblock, hstart, hrel⟩, rfl⟩
  · refine .inr ⟨opening, state', hopening, hstart, .zero, h.live_zero,
      ⟨block, state, hblock, ?_, hrel⟩, ?_⟩
    · rw [BlockRun.after, BlockRun.after, hstart, BlockRun.next, hrun]
    · simp [BlockRun.handlersBefore, BlockRun.after, hstart, BlockRun.atHandler, hopening]

/-- **One step of the simulator is one handler block of the code.** From where both are abreast they
are abreast again, or both have come to the end. -/
theorem abreast_step (h : Simulation r p machine blockAt Live Related Result) {n k position : Nat}
    {m : Simulator} (habreast : Abreast r p machine blockAt Live Related n k position m) :
    ∃ progress m', (Simulator.step p position).run m = .ok progress m' ∧
      match progress with
      | .advance next _ => Abreast r p machine blockAt Live Related (n + 1) (k + 1) next m'
      | .exit => Departing r p machine Related Result (n + 1) (k + 1) m' := by
  obtain ⟨block, state, hblock, hafter, hrel⟩ := habreast.entering
  have hhandlers : r.handlersBefore (n + 1) = k + 1 := by
    rw [BlockRun.handlersBefore, hafter, BlockRun.atHandler, h.isHandler hblock, if_pos rfl,
      habreast.handlers]
  have hnext : r.after (n + 1) = r.run block state := by
    rw [BlockRun.after, hafter, BlockRun.next]
  -- The block that was entered is a handler's, so both counts go up by one.
  obtain ⟨progress, m', hstep, hprogress⟩ := h.step habreast.live hblock hrel
  refine ⟨progress, m', hstep, ?_⟩
  cases progress with
  | advance next taken =>
    obtain ⟨hlive, block', state', hblock', hrun, hrel'⟩ := hprogress
    exact ⟨habreast.reaches.succ hstep, hlive, ⟨block', state', hblock', hnext.trans hrun, hrel'⟩,
      hhandlers⟩
  | exit =>
    obtain ⟨result, state', hout, hresult, hrel'⟩ := hprogress
    refine ⟨⟨k, position, m, rfl, habreast.reaches, hstep⟩, ⟨result, state', hresult, hrel', ?_⟩,
      hhandlers⟩
    rcases hout with hleft | ⟨closing, state'', hclosing, hrun, hleft⟩
    · exact .inl (hnext.trans hleft)
    · exact .inr ⟨closing, state'', hclosing, hnext.trans hrun, hleft⟩

/-- The block of every handler that the simulator reaches is entered, after the same number of
handlers. -/
theorem abreast_of_reaches (h : Simulation r p machine blockAt Live Related Result)
    {k position : Nat} {m : Simulator} (hreaches : machine.Reaches p k position m) :
    ∃ n, Abreast r p machine blockAt Live Related n k position m := by
  -- By the simulator's steps. A step is a function of the machine, so the one that `Reaches` made
  -- is the one that the code is known to follow.
  induction hreaches with
  | zero =>
    rcases h.abreast_start with hzero | ⟨_, _, _, _, hone⟩
    · exact ⟨0, hzero⟩
    · exact ⟨1, hone⟩
  | succ _ hstep ih =>
    obtain ⟨n, habreast⟩ := ih
    obtain ⟨progress, m', hstep', hprogress⟩ := h.abreast_step habreast
    rw [hstep] at hstep'
    cases hstep'
    exact ⟨n + 1, hprogress⟩

/-- When the simulator ends, the code is on its way out. -/
theorem departing_of_exits (h : Simulation r p machine blockAt Live Related Result) {k : Nat}
    {m : Simulator} (hexits : machine.Exits p k m) :
    ∃ n, Departing r p machine Related Result n k m := by
  obtain ⟨j, position, m₀, rfl, hreaches, hstep⟩ := hexits
  obtain ⟨n, habreast⟩ := h.abreast_of_reaches hreaches
  obtain ⟨progress, m', hstep', hprogress⟩ := h.abreast_step habreast
  rw [hstep] at hstep'
  cases hstep'
  exact ⟨n + 1, hprogress⟩

/-- The simulator always gets somewhere: it makes `n` steps or ends before. It never fails, because
at each position that it comes to the code has a block, and the block stands for a step that
succeeds. -/
theorem reaches_or_exits (h : Simulation r p machine blockAt Live Related Result) (n : Nat) :
    (∃ position m, machine.Reaches p n position m) ∨ ∃ k m, k ≤ n ∧ machine.Exits p k m := by
  induction n with
  | zero => exact .inl ⟨0, machine, .zero⟩
  | succ n ih =>
    rcases ih with ⟨position, m, hreaches⟩ | ⟨k, m, hk, hexits⟩
    · obtain ⟨_, habreast⟩ := h.abreast_of_reaches hreaches
      obtain ⟨progress, m', _, hprogress⟩ := h.abreast_step habreast
      cases progress with
      | advance next taken => exact .inl ⟨next, m', hprogress.reaches⟩
      | exit => exact .inr ⟨n + 1, m', Nat.le_refl _, hprogress.exits⟩
    · exact .inr ⟨k, m, by omega, hexits⟩

/-- **Every stage of the code's run is accounted for**: the block in front of the first handler, the
block of a handler, or behind the simulator's end. What the code does is thereby told from what the
simulator does, and not only the other way round. -/
theorem standing (h : Simulation r p machine blockAt Live Related Result) (n : Nat) :
    (∃ opening state, r.isHandler opening = false ∧ r.after n = .entering opening state ∧
        Abreast r p machine blockAt Live Related (n + 1) 0 0 machine) ∨
      (∃ k position m, Abreast r p machine blockAt Live Related n k position m) ∨
      ∃ k m, Departing r p machine Related Result n k m := by
  -- By the blocks entered. The opening block can only be the first, and the simulator's end is for
  -- good.
  induction n with
  | zero =>
    rcases h.abreast_start with hzero | hopening
    · exact .inr (.inl ⟨0, 0, machine, hzero⟩)
    · exact .inl hopening
  | succ n ih =>
    rcases ih with ⟨_, _, _, _, habreast⟩ | ⟨k, position, m, habreast⟩ | ⟨k, m, hdeparting⟩
    · exact .inr (.inl ⟨0, 0, machine, habreast⟩)
    · obtain ⟨progress, m', _, hprogress⟩ := h.abreast_step habreast
      cases progress with
      | advance next taken => exact .inr (.inl ⟨k + 1, next, m', hprogress⟩)
      | exit => exact .inr (.inr ⟨k + 1, m', hprogress⟩)
    · exact .inr (.inr ⟨k, m, hdeparting.succ⟩)

/-- A stage outside of the code is behind the simulator's end. -/
theorem departing_of_left (h : Simulation r p machine blockAt Live Related Result) {n : Nat}
    {result : R} {state : S} (hafter : r.after n = .left result state) :
    ∃ m, machine.Exits p (r.handlersBefore n) m ∧ Result result m ∧ Related state m := by
  rcases h.standing n with ⟨_, _, _, hopening, _⟩ | ⟨k, position, m, habreast⟩ | ⟨k, m, hdeparting⟩
  · rw [hafter] at hopening
    cases hopening
  · obtain ⟨block, state', _, hentering, _⟩ := habreast.entering
    rw [hafter] at hentering
    cases hentering
  · obtain ⟨result', state', hresult, hrel, hleft | ⟨_, _, _, hclosing, _⟩⟩ := hdeparting.leaving
    · rw [hafter] at hleft
      cases hleft
      exact ⟨m, hdeparting.handlers ▸ hdeparting.exits, hresult, hrel⟩
    · rw [hafter] at hclosing
      cases hclosing

/-- A handler block that is entered is that of the handler the simulator has in front of it. No
block belongs to two positions, so the position is the simulator's. -/
theorem reaches_of_entering (h : Simulation r p machine blockAt Live Related Result)
    {n position : Nat} {block : B} {state : S} (hblock : blockAt position = some block)
    (hafter : r.after n = .entering block state) :
    ∃ m, machine.Reaches p (r.handlersBefore n) position m ∧ Related state m := by
  have hhandler := h.isHandler hblock
  -- The opening and the closing block belong to no handler, so the block is the one both are at.
  rcases h.standing n with ⟨opening, _, hopening, hafter', _⟩ | ⟨k, position', m, habreast⟩ |
    ⟨k, m, hdeparting⟩
  · rw [hafter] at hafter'
    cases hafter'
    exact absurd (hhandler.symm.trans hopening) (by decide)
  · obtain ⟨block', state', hblock', hafter', hrel⟩ := habreast.entering
    rw [hafter] at hafter'
    cases hafter'
    obtain rfl := h.injective hblock hblock'
    exact ⟨m, habreast.handlers ▸ habreast.reaches, hrel⟩
  · obtain ⟨_, _, _, _, hleft | ⟨closing, _, hclosing, hafter', _⟩⟩ := hdeparting.leaving
    · rw [hafter] at hleft
      cases hleft
    · rw [hafter] at hafter'
      cases hafter'
      exact absurd (hhandler.symm.trans hclosing) (by decide)

/-- The code is never stuck, for being stuck is none of the three ways to stand. -/
theorem after_ne_stuck (h : Simulation r p machine blockAt Live Related Result) (n : Nat) :
    r.after n ≠ .stuck := by
  intro hstuck
  rcases h.standing n with ⟨_, _, _, hopening, _⟩ | ⟨k, position, m, habreast⟩ | ⟨k, m, hdeparting⟩
  · rw [hstuck] at hopening
    cases hopening
  · obtain ⟨_, _, _, hentering, _⟩ := habreast.entering
    rw [hstuck] at hentering
    cases hentering
  · obtain ⟨_, _, _, _, hleft | ⟨_, _, _, hclosing, _⟩⟩ := hdeparting.leaving
    · rw [hstuck] at hleft
      cases hleft
    · rw [hstuck] at hclosing
      cases hclosing

/-- **Code whose handler blocks do what their handlers do is in lock step with the simulator.** One
half follows the simulator and finds the blocks, the other follows the blocks and finds the
simulator. -/
theorem lockStep (h : Simulation r p machine blockAt Live Related Result)
    {Agrees : S → Simulator → Prop} (hagrees : ∀ {state m}, Related state m → Agrees state m) :
    LockStep r p machine blockAt Agrees Result where
  enters := by
    intro k position m hreaches
    obtain ⟨n, habreast⟩ := h.abreast_of_reaches hreaches
    obtain ⟨block, state, hblock, hafter, hrel⟩ := habreast.entering
    exact ⟨block, state, hblock, ⟨n, hafter, h.isHandler hblock, habreast.handlers⟩, hagrees hrel⟩
  reaches := by
    rintro k position block state hblock ⟨n, hafter, _, rfl⟩
    obtain ⟨m, hreaches, hrel⟩ := h.reaches_of_entering hblock hafter
    exact ⟨m, hreaches, hagrees hrel⟩
  leaves := by
    intro n k m hrun
    obtain ⟨n', hdeparting⟩ := h.departing_of_exits (Simulator.exits_of_run_eq_some hrun)
    obtain ⟨result, state, hleft, hhandlers, hresult, hrel⟩ := hdeparting.succ_left
    exact ⟨result, state, ⟨n' + 1, hleft, hhandlers⟩, hresult, hagrees hrel⟩
  ends := by
    rintro k result state ⟨n, hafter, rfl⟩
    obtain ⟨m, hexits, hresult, hrel⟩ := h.departing_of_left hafter
    exact ⟨m, fun n' hn' => hexits.run_eq_some hn', hresult, hagrees hrel⟩
  runs := by
    intro n
    rcases h.reaches_or_exits n with ⟨position, m, hreaches⟩ | ⟨k, m, hk, hexits⟩
    · exact ⟨none, m, hreaches.run_eq_none⟩
    · exact ⟨some k, m, hexits.run_eq_some hk⟩
  safe := h.after_ne_stuck

end Simulation

end

end CodeRecovery
