import SensorCache.CommandLine.Program
import SensorCache.Refresh.Simulation

/-!
# The program in simulated time

What a whole call of the program leaves, when it has a disk for itself and its clock does not go on
but for timers. A program that keeps caches refreshed is interrupted once there is nothing left to
do at its start.
-/

namespace SensorCache

namespace Stage

/-- Comes to the end of the program, with `turns` turns and timers at most. -/
def finish (turns : Nat) : Stage → Disk → Report × Disk
  | .ended r, d => (r, d)
  | .refreshing s, d =>
    let x := Simulation.runJob turns turns s.lastJob ⟨s, d⟩
    let (_, y) := x.shutdown turns
    (((x.scheduler.end? s.lastJob).getD .killed).report, y.disk)
  | .running s, d =>
    let (_, x) := (Simulation.settle turns ⟨s, d⟩).shutdown turns
    (⟨0, [], []⟩, x.disk)

end Stage

/-- Calls the program. -/
def Program.simulate (turns : Nat) (lookup : String → Option String) (time : Instant → String)
    (args : List String) (d : Disk) : Report × Disk :=
  let (s, d) := (Program.begin lookup time .zero .utc args).run d
  s.finish turns d

end SensorCache
