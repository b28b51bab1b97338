import HsaSnoop.Library.OrdMap
import HsaSnoop.Model.Machine

set_option autoImplicit false

/-! # Kernel symbol resolution

`KernelSymbolResolver` maps the `kernel_object` of a dispatch to a name. It memoises: a hit never
looks at the process again, a miss scans the loaded code objects once and remembers whatever it
answers. Which `(address, name)` pairs a scan visits is part of the observed process
(`ProcMem.codeObjects`). -/

namespace HsaSnoop

/-- The two memo tables of a resolver. -/
structure KernelSymbolResolver where
  /-- `kernel_object` to name. -/
  cache : OrdMap Bytes := ∅
  /-- Low bits of the address to name; the empty name marks low bits that two names share. -/
  offsetCache : OrdMap Bytes := ∅

namespace KernelSymbolResolver

/-- 1 MB intra-object offset. -/
def kOffsetMask : Nat := 2 ^ 20 - 1

/-- What a scan does with one `.kd` symbol. -/
def scanSymbol (r : KernelSymbolResolver) (sym : Nat × Bytes) : KernelSymbolResolver :=
  let runtime := sym.1
  let demangled := sym.2
  let key := runtime &&& kOffsetMask
  { cache := r.cache.insert runtime demangled
    offsetCache :=
      match r.offsetCache.find? key with
      | none => r.offsetCache.emplace key demangled
      | some name =>
          if name ≠ demangled ∧ name ≠ [] then r.offsetCache.insert key []
          else r.offsetCache }

def scanCodeObjects (r : KernelSymbolResolver) (m : ProcMem) : KernelSymbolResolver :=
  m.codeObjects.foldl scanSymbol r

/-- `kernel_0x%lx`. -/
def hexLabel (kernelObject : Nat) : Bytes :=
  str "kernel_0x" ++ (Nat.toDigits 16 kernelObject).map (fun c => UInt8.ofNat c.toNat)

def resolve (r : KernelSymbolResolver) (m : ProcMem) (kernelObject : Nat) :
    Bytes × KernelSymbolResolver :=
  match r.cache.find? kernelObject with
  | some name => (name, r)
  | none =>
      -- Miss: rescan the loaded code objects once and retry.
      let r := r.scanCodeObjects m
      match r.cache.find? kernelObject with
      | some name => (name, r)
      | none =>
          let fallback :=
            match r.offsetCache.find? (kernelObject &&& kOffsetMask) with
            | some name => if name ≠ [] then name else hexLabel kernelObject
            | none => hexLabel kernelObject
          (fallback, { r with cache := r.cache.insert kernelObject fallback })

end KernelSymbolResolver

end HsaSnoop
