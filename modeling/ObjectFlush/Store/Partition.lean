import ObjectFlush.Table

/-!
A partition as the disk keeps it: one ordered map from names to entries. The names are in the order of
their code points, which is that of their bytes in UTF-8. What stands under a prefix is found by walking
the names from the prefix on, up to the first that does not start with it.
-/

namespace ObjectFlush

/-- Whether a name is not after another: it is a prefix of the other, or has the smaller code point where
they part. -/
def notAfter : List Char → List Char → Bool
  | [], _ => true
  | _ :: _, [] => false
  | a :: as, b :: bs => a.toNat < b.toNat || (a = b && notAfter as bs)

/-- Entries of type `ε` by name, one for each name. -/
structure Partition (ε : Type) where
  entries : Table (List Char) ε := []
  distinct : entries.names.Nodup := by exact List.nodup_nil

namespace Partition

variable {ε : Type}

def get? (p : Partition ε) (name : List Char) : Option ε := p.entries.get? name

def insert (p : Partition ε) (name : List Char) (entry : ε) : Partition ε :=
  ⟨p.entries.set name entry, Table.nodup_names_set name entry p.distinct⟩

def remove (p : Partition ε) (name : List Char) : Partition ε :=
  ⟨p.entries.erase name, Table.nodup_names_erase name p.distinct⟩

/-- All names in their order. -/
def names (p : Partition ε) : List (List Char) := p.entries.names.mergeSort notAfter

/-- The names that start with `front`. -/
def namesUnder (p : Partition ε) (front : List Char) : List (List Char) :=
  (p.names.dropWhile fun name => !notAfter front name).takeWhile front.isPrefixOf

@[simp] theorem get?_insert (p : Partition ε) (name x : List Char) (entry : ε) :
    (p.insert name entry).get? x = if x = name then some entry else p.get? x :=
  Table.get?_set name x entry p.entries

@[simp] theorem get?_remove (p : Partition ε) (name x : List Char) :
    (p.remove name).get? x = if x = name then none else p.get? x :=
  Table.get?_erase name x p.entries

end Partition

end ObjectFlush
