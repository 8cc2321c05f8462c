import RangeStore.Storage.Patch
set_option autoImplicit false

/-! # Directories

Files by name. -/

namespace RangeStore

/-- Files, each under a name of its own. -/
structure Directory where
  files : List (String × File) := []

namespace Directory

def find? (d : Directory) (name : String) : Option File := d.files.lookup name

/-- The directory with a file under a name; another one of that name is replaced. -/
def store (d : Directory) (name : String) (f : File) : Directory :=
  ⟨(name, f) :: d.files.filter (·.1 ≠ name)⟩

theorem find?_store (d : Directory) (name : String) (f : File) :
    (d.store name f).find? name = some f := by
  simp [store, find?]

end Directory

end RangeStore
