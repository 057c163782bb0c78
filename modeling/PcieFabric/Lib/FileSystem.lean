import Mathlib.Tactic

/-!
A file system as a map from names to contents, with the primitive steps that
change it. Each step is a function; whether it happens, fails or is the last one
before a crash is up to the machine that takes the steps.

* `put`, `remove`, `rename`: `rename` replaces its target in one step.
* `get_put_self` to `get_rename_target`: what each step does to each name.
-/

namespace PcieFabric

/-- Contents by name. -/
def FileSystem (ν κ : Type) : Type := ν → Option κ

namespace FileSystem

variable {ν κ : Type} [DecidableEq ν] (fs : FileSystem ν κ)

/-- The content of a name. -/
def get (n : ν) : Option κ := fs n

/-- Write a content under a name. -/
def put (n : ν) (c : κ) : FileSystem ν κ := Function.update fs n (some c)

/-- Remove a name. -/
def remove (n : ν) : FileSystem ν κ := Function.update fs n none

/-- Move the content of one name to another, in one step. -/
def rename (src dst : ν) : FileSystem ν κ :=
  Function.update (Function.update fs dst (fs src)) src none

variable {fs} {n m k : ν}

@[simp] lemma get_put_self (c : κ) : (fs.put n c).get n = some c := Function.update_self ..

lemma get_put_of_ne (c : κ) (h : m ≠ n) : (fs.put n c).get m = fs.get m :=
  Function.update_of_ne h ..

@[simp] lemma get_remove_self : (fs.remove n).get n = none := Function.update_self ..

lemma get_remove_of_ne (h : m ≠ n) : (fs.remove n).get m = fs.get m := Function.update_of_ne h ..

lemma get_rename_target (h : n ≠ m) : (fs.rename m n).get n = fs.get m :=
  (Function.update_of_ne h ..).trans (Function.update_self ..)

end FileSystem

end PcieFabric
