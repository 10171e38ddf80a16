import Mathlib

/-!
# Objects behind pointers

`new`, `delete` and what lies between them. An object has an address; one that has been released
cannot be read any more, and its address is not used again. What it last held stays in the model
(`Heap.last`): no program reads it, but statements about released objects need to say which objects
they were.
-/

set_option autoImplicit false

namespace EcGcm

structure Cell (α : Type) where
  value : α
  released : Bool

structure Heap (α : Type) where
  cells : List (Cell α)

namespace Heap

variable {α : Type} {h : Heap α} {a : α} {p q : ℕ} {f : α → α}

def empty : Heap α := ⟨[]⟩

/-- The address of the next object. -/
def fresh (h : Heap α) : ℕ := h.cells.length

/-- What the object at `p` holds, or held when it was released. -/
def last (h : Heap α) (p : ℕ) : Option α := h.cells[p]?.map Cell.value

def read (h : Heap α) (p : ℕ) : Option α :=
  h.cells[p]?.bind fun c => if c.released then none else some c.value

def alloc (h : Heap α) (a : α) : Heap α := ⟨h.cells ++ [⟨a, false⟩]⟩

def write (h : Heap α) (p : ℕ) (f : α → α) : Heap α :=
  ⟨h.cells.modify p fun c => { c with value := f c.value }⟩

def release (h : Heap α) (p : ℕ) : Heap α :=
  ⟨h.cells.modify p fun c => { c with released := true }⟩

/-- How many objects have been released. -/
def releases (h : Heap α) : ℕ := h.cells.countP Cell.released

/-! ## Reading -/

theorem last_of_read (hr : h.read p = some a) : h.last p = some a := by
  unfold read at hr
  unfold last
  obtain ⟨c, hc, hif⟩ := Option.bind_eq_some_iff.mp hr
  rw [hc]
  split at hif
  · cases hif
  · exact hif

theorem lt_fresh_of_last (hl : h.last p = some a) : p < h.fresh := by
  obtain ⟨c, hc, -⟩ := Option.map_eq_some_iff.mp hl
  exact (List.getElem?_eq_some_iff.mp hc).1

theorem lt_fresh_of_read (hr : h.read p = some a) : p < h.fresh :=
  lt_fresh_of_last (last_of_read hr)

@[simp] theorem fresh_alloc : (h.alloc a).fresh = h.fresh + 1 := by simp [alloc, fresh]

@[simp] theorem fresh_write : (h.write p f).fresh = h.fresh := by simp [write, fresh]

@[simp] theorem fresh_release : (h.release p).fresh = h.fresh := by simp [release, fresh]

theorem last_alloc : (h.alloc a).last q = if q = h.fresh then some a else h.last q := by
  unfold last alloc fresh
  dsimp only
  split
  · rename_i heq
    subst heq
    simp
  · rename_i hne
    rcases Nat.lt_or_ge q h.cells.length with hlt | hge
    · rw [List.getElem?_append_left hlt]
    · rw [List.getElem?_append_right hge, List.getElem?_eq_none hge,
        List.getElem?_eq_none (by simp; omega)]

theorem read_alloc : (h.alloc a).read q = if q = h.fresh then some a else h.read q := by
  unfold read alloc fresh
  dsimp only
  split
  · rename_i heq
    subst heq
    simp
  · rename_i hne
    rcases Nat.lt_or_ge q h.cells.length with hlt | hge
    · rw [List.getElem?_append_left hlt]
    · rw [List.getElem?_append_right hge, List.getElem?_eq_none hge,
        List.getElem?_eq_none (by simp; omega)]

theorem last_write : (h.write p f).last q = if q = p then (h.last q).map f else h.last q := by
  unfold last write
  rw [List.getElem?_modify]
  by_cases heq : q = p
  · subst heq
    cases h.cells[q]? with
    | none => simp
    | some c => simp
  · rw [if_neg heq]
    simp [Ne.symm heq]

theorem read_write : (h.write p f).read q = if q = p then (h.read q).map f else h.read q := by
  unfold read write
  rw [List.getElem?_modify]
  by_cases heq : q = p
  · subst heq
    cases h.cells[q]? with
    | none => simp
    | some c => by_cases hc : c.released <;> simp [hc]
  · rw [if_neg heq]
    simp [Ne.symm heq]

@[simp] theorem last_release : (h.release p).last q = h.last q := by
  unfold last release
  rw [List.getElem?_modify]
  cases h.cells[q]? with
  | none => simp
  | some c => by_cases heq : p = q <;> simp [heq]

theorem read_release : (h.release p).read q = if q = p then none else h.read q := by
  unfold read release
  rw [List.getElem?_modify]
  by_cases heq : q = p
  · subst heq
    cases h.cells[q]? with
    | none => simp
    | some c => simp
  · rw [if_neg heq]
    simp [Ne.symm heq]

/-! ## Counting releases -/

@[simp] theorem releases_alloc : (h.alloc a).releases = h.releases := by
  simp [releases, alloc]

@[simp] theorem releases_write : (h.write p f).releases = h.releases := by
  unfold releases write
  rw [List.modify_eq_set_getElem?]
  cases hc : h.cells[p]? with
  | none => rfl
  | some c =>
    obtain ⟨hlt, hget⟩ := List.getElem?_eq_some_iff.mp hc
    have hle : h.cells.countP Cell.released ≥ if c.released then 1 else 0 := by
      split
      · exact List.countP_pos_iff.mpr ⟨c, List.mem_of_getElem? hc, by assumption⟩
      · exact Nat.zero_le _
    show (h.cells.set p { c with value := f c.value }).countP Cell.released = _
    rw [List.countP_set hlt, hget]
    dsimp only
    omega

theorem releases_release (hr : h.read p = some a) : (h.release p).releases = h.releases + 1 := by
  unfold read at hr
  obtain ⟨c, hc, hif⟩ := Option.bind_eq_some_iff.mp hr
  obtain ⟨hlt, hget⟩ := List.getElem?_eq_some_iff.mp hc
  have hlive : c.released = false := by
    by_contra hnot
    rw [if_pos (by simpa using hnot)] at hif
    cases hif
  unfold releases release
  rw [List.modify_eq_set_getElem?, hc]
  show (h.cells.set p { c with released := true }).countP Cell.released = _
  rw [List.countP_set hlt, hget, hlive]
  simp

end Heap

end EcGcm
