/-
  VmkLinux/Errno.lean
  ===================
  **Error numbers**, `include/asm-generic/errno-base.h`, `errno.h` and `linux/errno.h`.

  The functions of the compatibility layer return them with the sign turned round.
-/
import Mathlib.Algebra.Group.Int.Defs

namespace VmkLinux

def enoent : Int := 2
def eintr : Int := 4
def eio : Int := 5
def eagain : Int := 11
def enomem : Int := 12
def ebusy : Int := 16
def enodev : Int := 19
def einval : Int := 22
def enfile : Int := 23
def enospc : Int := 28
def eopnotsupp : Int := 95
def erestartsys : Int := 512

end VmkLinux
