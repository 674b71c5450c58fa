import Mathlib.Data.List.Basic

/-!
# The program cache of the CUDA manager

The functions that create a program share one table.  The key of a program is
the hash of two strings, one written behind the other.  Different texts are
taken to have different hashes, so the text stands for its hash.
-/

namespace ActorFramework.Cuda.Manager

open List

inductive Request where
  | createProgram (kernel name : String)
  | createProgramFromCubin (filename kernelName : String)
  | createProgramFromFatbin (filename kernelName : String)

def Request.key : Request → String
  | .createProgram kernel name => name ++ kernel
  | .createProgramFromCubin filename kernelName
  | .createProgramFromFatbin filename kernelName => filename ++ kernelName

/-- `builtFrom` is the call that has built the program. -/
structure Program where
  name : String
  binary : List (BitVec 8)
  isFatbin : Bool
  builtFrom : Request

/-- The compiler, for the device of the calls, the file system and the driver,
which loads a binary on every device or throws. -/
structure Env where
  compileNvrtcProgram : String → Option (List (BitVec 8))
  readFile : String → Option (List (BitVec 8))
  loadKernels : String → List (BitVec 8) → Bool → Except String Unit

abbrev Programs := List (String × Program)

variable (env : Env)

/-- The constructor of `program`. -/
def makeProgram (name : String) (binary : List (BitVec 8)) (isFatbin : Bool)
    (r : Request) : Except String Program :=
  match env.loadKernels name binary isFatbin with
  | .error what => .error what
  | .ok () => .ok ⟨name, binary, isFatbin, r⟩

def load (filename kernelName : String) (isFatbin : Bool) (r : Request) :
    Except String Program :=
  match env.readFile filename with
  | none => .error ("Failed to open CUBIN file: " ++ filename)
  | some cubin => makeProgram env kernelName cubin isFatbin r

def build (r : Request) : Except String Program :=
  match r with
  | .createProgram kernel name =>
    match env.compileNvrtcProgram kernel with
    | none => .error "Program failed to compile\n"
    | some ptx => makeProgram env name ptx false r
  | .createProgramFromCubin filename kernelName =>
    load env filename kernelName false r
  | .createProgramFromFatbin filename kernelName =>
    load env filename kernelName true r

def call (programs : Programs) (r : Request) :
    Except String Program × Programs :=
  match programs.lookup r.key with
  | some prog => (.ok prog, programs)
  | none =>
    match build env r with
    | .error what => (.error what, programs)
    | .ok prog => (.ok prog, (r.key, prog) :: programs)

def results : Programs → List Request → List (Except String Program)
  | _, [] => []
  | programs, r :: rs =>
    (call env programs r).1 :: results (call env programs r).2 rs

def Right (r : Request) (result : Except String Program) : Prop :=
  ∀ prog, result = .ok prog → prog.builtFrom = r

/-- A program that is built for the first call is not found for the second
unless the calls are the same. -/
def Apart (r r' : Request) : Prop :=
  (build env r).isOk → r.key = r'.key → r = r'

variable {env}

end ActorFramework.Cuda.Manager
