-- Dictionaries with text keys, kept in the order of the keys. Keys are compared
-- by code points, which is also the order of their bytes. The order is part of
-- the type, so two dictionaries with the same look-ups are the same.
namespace Blockwork

variable {α β : Type}

structure Dict (α : Type) where
  entries : List (String × α)
  ordered : entries.Pairwise fun a b => a.1 < b.1

namespace Dict

def empty : Dict α := ⟨[], List.Pairwise.nil⟩

instance : Inhabited (Dict α) := ⟨empty⟩

instance [DecidableEq α] : DecidableEq (Dict α) := fun a b =>
  decidable_of_iff (a.entries = b.entries) (by cases a; cases b; simp)

def get? (d : Dict α) (key : String) : Option α := d.entries.lookup key

def contains (d : Dict α) (key : String) : Bool := (d.get? key).isSome

def size (d : Dict α) : Nat := d.entries.length

def isEmpty (d : Dict α) : Bool := d.entries.isEmpty

def values (d : Dict α) : List α := d.entries.map (·.2)

def place (key : String) (value : α) : List (String × α) → List (String × α)
  | [] => [(key, value)]
  | (k, v) :: rest =>
    if key < k then (key, value) :: (k, v) :: rest
    else if key = k then (key, value) :: rest
    else (k, v) :: place key value rest

theorem mem_place {key : String} {value : α} {entries : List (String × α)} {e : String × α}
    (member : e ∈ place key value entries) : e = (key, value) ∨ e ∈ entries := by
  induction entries with
  | nil => simp_all [place]
  | cons head rest ih =>
    obtain ⟨k, v⟩ := head
    simp only [place] at member
    split at member
    · simpa using member
    · split at member
      · rcases List.mem_cons.mp member with same | old
        · exact .inl same
        · exact .inr (List.mem_cons_of_mem _ old)
      · rcases List.mem_cons.mp member with same | old
        · exact .inr (same ▸ List.mem_cons_self)
        · rcases ih old with new | kept
          · exact .inl new
          · exact .inr (List.mem_cons_of_mem _ kept)

theorem key_lt_of_not {key k : String} (notBefore : ¬key < k) (different : ¬key = k) : k < key := by
  rcases String.le_total key k with le | le
  · exact absurd (String.le_antisymm le (String.not_lt.mp notBefore)) different
  · exact Classical.byContradiction fun notAfter =>
      different (String.le_antisymm (String.not_lt.mp notAfter) le)

theorem place_ordered (key : String) (value : α) {entries : List (String × α)}
    (ordered : entries.Pairwise fun a b => a.1 < b.1) :
    (place key value entries).Pairwise fun a b => a.1 < b.1 := by
  induction entries with
  | nil => simp [place]
  | cons head rest ih =>
    obtain ⟨k, v⟩ := head
    obtain ⟨above, tail⟩ := List.pairwise_cons.mp ordered
    simp only [place]
    split
    · next before =>
      refine List.pairwise_cons.mpr ⟨?_, ordered⟩
      intro e member
      rcases List.mem_cons.mp member with rfl | old
      · exact before
      · exact String.lt_trans before (above e old)
    · split
      · next same => exact List.pairwise_cons.mpr ⟨fun e member => same ▸ above e member, tail⟩
      · next notBefore different =>
        refine List.pairwise_cons.mpr ⟨?_, ih tail⟩
        intro e member
        rcases mem_place member with rfl | old
        · exact key_lt_of_not notBefore different
        · exact above e old

def insert (d : Dict α) (key : String) (value : α) : Dict α :=
  ⟨place key value d.entries, place_ordered key value d.ordered⟩

def restrict (d : Dict α) (keep : String → Bool) : Dict α :=
  ⟨d.entries.filter fun e => keep e.1, d.ordered.filter _⟩

def mapEntries (d : Dict α) (f : String → α → β) : Dict β :=
  ⟨d.entries.map fun e => (e.1, f e.1 e.2), List.pairwise_map.mpr d.ordered⟩

-- Changes the value of a key; without the key nothing changes.
def modify (d : Dict α) (key : String) (f : α → α) : Dict α :=
  d.mapEntries fun k v => if k = key then f v else v

-- Of entries with the same key the last one counts.
def ofList (entries : List (String × α)) : Dict α :=
  entries.foldl (fun d e => d.insert e.1 e.2) empty

def agreeing (same : α → α → Bool) : List (String × α) → List (String × α) → Bool
  | [], [] => true
  | a :: as, b :: bs => a.1 == b.1 && same a.2 b.2 && agreeing same as bs
  | _, _ => false

def agrees (d : Dict α) (same : α → α → Bool) (e : Dict α) : Bool :=
  agreeing same d.entries e.entries

end Dict
end Blockwork
