import Assayist.Spec.Firecracker

/-! The targets of the adapters that are not firecracker: two full VMs, a unikernel, and the
commands that a definition spells out itself. -/

namespace Assayist

section Targets

variable {F : Type} [FloatText F]

/-- The index of an instance in the name of its default socket, if it has one. -/
def socketIndex (vars : Vars) : String := ((vars.lookup "instance").map ("-" ++ ·)).getD ""

structure QemuTarget where
  bin : String
  sock : String
  vcpu : String
  memMib : String
  kernel : String
  rootfs : String
  bootArgs : String
  extra : String
  readiness : Option String
  pinThreads : Bool
  deriving DecidableEq

def qemuTarget (pid : UInt32) (config : List (String × Json F)) (vars : Vars)
    (pinThreads : Bool) : QemuTarget :=
  let g := cfg config vars
  { bin := g "bin" "qemu-system-x86_64"
    sock := g "qmp_sock"
      ("/tmp/assayist-qemu-" ++ toString pid.toNat ++ socketIndex vars ++ ".sock")
    vcpu := (vars.lookup "vcpu").getD (g "vcpu" "1")
    memMib := (vars.lookup "mem_mib").getD (g "mem_mib" "128")
    kernel := g "kernel" ""
    rootfs := g "rootfs" ""
    bootArgs := g "boot_args" "console=ttyS0 reboot=k panic=1 root=/dev/vda ro"
    extra := g "extra_args" ""
    readiness := (config.lookup "readiness").map fun _ => g "readiness" ""
    pinThreads }

structure CloudHypervisorTarget where
  bin : String
  sock : String
  vcpu : String
  memMib : String
  kernel : String
  rootfs : String
  cmdline : String
  extra : String
  readiness : Option String
  pinThreads : Bool
  deriving DecidableEq

def chTarget (pid : UInt32) (config : List (String × Json F)) (vars : Vars) (pinThreads : Bool) :
    CloudHypervisorTarget :=
  let g := cfg config vars
  { bin := g "bin" "cloud-hypervisor"
    sock := g "api_sock"
      ("/tmp/assayist-chv-" ++ toString pid.toNat ++ socketIndex vars ++ ".sock")
    vcpu := (vars.lookup "vcpu").getD (g "vcpu" "1")
    memMib := (vars.lookup "mem_mib").getD (g "mem_mib" "128")
    kernel := g "kernel" ""
    rootfs := g "rootfs" ""
    cmdline := g "cmdline" "console=ttyS0 reboot=k panic=1 root=/dev/vda ro"
    extra := g "extra_args" ""
    readiness := (config.lookup "readiness").map fun _ => g "readiness" ""
    pinThreads }

structure UnikernelTarget where
  bin : String
  sock : String
  memMib : String
  image : String
  diskBoot : Bool
  bootArgs : String
  hostfwd : String
  extra : String
  readiness : Option String
  pinThreads : Bool
  deriving DecidableEq

def unikernelTarget (pid : UInt32) (config : List (String × Json F)) (vars : Vars)
    (pinThreads : Bool) : UnikernelTarget :=
  let g := cfg config vars
  { bin := g "bin" "qemu-system-x86_64"
    sock := g "qmp_sock"
      ("/tmp/assayist-uk-" ++ toString pid.toNat ++ socketIndex vars ++ ".sock")
    memMib := (vars.lookup "mem_mib").getD (g "mem_mib" "256")
    image := g "image" ""
    diskBoot := g "boot_style" "disk" ≠ "kernel"
    bootArgs := g "boot_args" ""
    hostfwd := g "hostfwd" ""
    extra := g "extra_args" ""
    readiness := (config.lookup "readiness").map fun _ => g "readiness" ""
    pinThreads }

/-- A template for each phase, with the variables to render them with. -/
structure CommandSet where
  commands : List (String × String)
  vars : Vars

/-- The command that `exec` runs in a phase; a phase without a template has none. -/
def CommandSet.command (c : CommandSet) (phase : String) : Option String :=
  (c.commands.lookup phase).map fun t => render t c.vars

/-- A target of an adapter that is not firecracker. -/
inductive OtherTarget where
  | qemu (t : QemuTarget)
  | cloudHypervisor (t : CloudHypervisorTarget)
  | unikernel (t : UnikernelTarget)
  | command (t : CommandSet)

/-- The arms of `select_target` below firecracker. -/
def otherTarget (pid : UInt32) (d : BenchmarkDef F) (vars : Vars) (pinThreads : Bool) :
    OtherTarget :=
  if d.target.adapter = "qemu" then .qemu (qemuTarget pid d.target.config vars pinThreads)
  else if d.target.adapter = "cloud-hypervisor" ∨ d.target.adapter = "chv" then
    .cloudHypervisor (chTarget pid d.target.config vars pinThreads)
  else if d.target.adapter = "unikernel" then
    .unikernel (unikernelTarget pid d.target.config vars pinThreads)
  else .command ⟨d.target.commands, vars⟩

end Targets

end Assayist
