import FpgaGpu.Driver.Packet

/-! The `cl_int` results of the user-mode driver, and `clFinish`. -/
namespace FpgaGpu.Umd
open Driver

inductive ClStatus where
  | CL_SUCCESS
  | CL_DEVICE_NOT_AVAILABLE
  | CL_COMPILER_NOT_AVAILABLE
  | CL_MEM_OBJECT_ALLOCATION_FAILURE
  | CL_OUT_OF_RESOURCES
  | CL_OUT_OF_HOST_MEMORY
  | CL_BUILD_PROGRAM_FAILURE
  | CL_INVALID_VALUE
  | CL_INVALID_CONTEXT
  | CL_INVALID_COMMAND_QUEUE
  | CL_INVALID_MEM_OBJECT
  | CL_INVALID_PROGRAM_EXECUTABLE
  | CL_INVALID_KERNEL
  | CL_INVALID_KERNEL_ARGS
  | CL_INVALID_WORK_DIMENSION
  | CL_INVALID_BUFFER_SIZE
  | CL_INVALID_PROGRAM
  | CL_INVALID_ARG_INDEX
  | CL_INVALID_ARG_VALUE
  deriving DecidableEq, Repr

/-- `ioctl(..) < 0`. -/
def ioctlFailed : Ret → Bool
  | .ok => false
  | .err _ => true

@[simp] theorem ioctlFailed_eq_false (ret : Ret) : ioctlFailed ret = false ↔ ret = .ok := by
  cases ret <;> simp [ioctlFailed]

/-- `clFinish`, given whether there is a queue and what its DOORBELL returned. -/
def clFinish (commandQueue : Bool) (doorbell : Ret) : ClStatus :=
  if !commandQueue then .CL_INVALID_COMMAND_QUEUE
  else if ioctlFailed doorbell then .CL_OUT_OF_RESOURCES
  else .CL_SUCCESS

theorem clFinish_success {commandQueue : Bool} {doorbell : Ret}
    (h : clFinish commandQueue doorbell = .CL_SUCCESS) : doorbell = .ok := by
  cases commandQueue <;> cases doorbell <;> simp_all [clFinish, ioctlFailed]

end FpgaGpu.Umd
