import Moonclip.Coordinator

/-! Several processes with one store open: the disk is theirs together, the
manifest in memory each one's own. -/
namespace Moonclip

/-- What a process holds besides the store. -/
structure Memory where
  manifest : Manifest
  retainedBase : Option RetainedBase
  inFlight : InFlight

def World.memory (w : World) : Memory := ⟨w.manifest, w.retainedBase, w.inFlight⟩

structure Processes (ι : Type) where
  disk : Disk
  memory : ι → Memory

namespace Processes
variable {ι : Type} (ps : Processes ι)

/-- The store as process `i` has it. -/
def world (i : ι) : World :=
  ⟨ps.disk, (ps.memory i).manifest, (ps.memory i).retainedBase, (ps.memory i).inFlight⟩

variable {ps} {i j : ι} {w : World}

@[simp] theorem world_disk : (ps.world i).disk = ps.disk := rfl

variable [DecidableEq ι]

/-- What `i` did to the store all see, to its memory only `i`. -/
def after (ps : Processes ι) (i : ι) (w : World) :
    Processes ι := ⟨w.disk, Function.update ps.memory i w.memory⟩

@[simp] theorem after_disk : (ps.after i w).disk = w.disk := rfl

@[simp] theorem world_after_self : (ps.after i w).world i = w := by
  simp [world, after, World.memory]

end Processes
end Moonclip
