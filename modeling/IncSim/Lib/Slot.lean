import Mathlib.Logic.Basic
import Mathlib.Data.List.Basic

/-!
# Slots of a record

A slot is a place in a record that can be read and written: a field, a half of a pair, an element of
a list, or a slot of what stands in a slot. It need not be there.

* `Slot`, with its laws; `Slot.field`, `Slot.half`, `Slot.nth`, `Slot.comp`.
* `Slot.Elsewhere`: two records are the same but for the slot.
* **`Slot.eq_set_iff`**: what writing a slot is, by what is read there and elsewhere.
-/

universe u v w

/-- A place in a record. -/
structure Slot (σ : Type u) (α : Type v) where
  get : σ → Option α
  set : α → σ → σ
  get_set : ∀ a s, (get s).isSome → get (set a s) = some a
  set_get : ∀ a s, get s = some a → set a s = s
  set_set : ∀ a b s, set b (set a s) = set b s

namespace Slot

variable {σ : Type u} {α : Type v} {β : Type w}

/-- The records are the same but for the slot. -/
def Elsewhere (l : Slot σ α) (s s' : σ) : Prop := ∀ a, l.set a s = l.set a s'

/-- **Writing a slot** that is there: the value is read there, and elsewhere nothing changes. -/
theorem eq_set_iff {l : Slot σ α} {s s' : σ} {a : α} (h : (l.get s).isSome) :
    s' = l.set a s ↔ l.get s' = some a ∧ l.Elsewhere s' s := by
  constructor
  · rintro rfl
    exact ⟨l.get_set a s h, fun b => l.set_set a b s⟩
  · rintro ⟨hget, helse⟩
    rw [← l.set_get a s' hget, helse a]

/-- A slot holds one value at a time. -/
theorem set_injective {l : Slot σ α} {s : σ} {a b : α} (h : (l.get s).isSome) :
    l.set a s = l.set b s ↔ a = b := by
  constructor
  · intro heq
    have hget := (l.get_set a s h).symm.trans (heq ▸ l.get_set b s h)
    exact Option.some.inj hget
  · rintro rfl
    rfl

/-- A field, which is always there. -/
def field (get : σ → α) (set : α → σ → σ) (get_set : ∀ a s, get (set a s) = a)
    (set_get : ∀ s, set (get s) s = s) (set_set : ∀ a b s, set b (set a s) = set b s) :
    Slot σ α where
  get s := some (get s)
  set := set
  get_set a s _ := congrArg some (get_set a s)
  set_get a s h := by
    cases h
    exact set_get s
  set_set := set_set

/-- A half of a pair. -/
def half (first : Bool) : Slot (α × α) α :=
  field (fun p => if first then p.1 else p.2) (fun a p => if first then (a, p.2) else (p.1, a))
    (by cases first <;> exact fun _ _ => rfl) (by cases first <;> exact fun _ => rfl)
    (by cases first <;> exact fun _ _ _ => rfl)

/-- An element of a list. -/
def nth (i : ℕ) : Slot (List α) α where
  get l := l[i]?
  set a l := l.set i a
  get_set a l h := by
    obtain ⟨b, hb⟩ := Option.isSome_iff_exists.mp h
    exact List.getElem?_set_self (List.getElem?_eq_some_iff.mp hb).1
  set_get a l h := by
    obtain ⟨hi, rfl⟩ := List.getElem?_eq_some_iff.mp h
    exact List.set_getElem_self hi
  set_set _ _ _ := List.set_set ..

/-- A slot of what stands in a slot. -/
def comp (l : Slot σ α) (l' : Slot α β) : Slot σ β where
  get s := (l.get s).bind l'.get
  set b s := match l.get s with
    | none => s
    | some a => l.set (l'.set b a) s
  get_set b s h := by
    obtain ⟨c, hc⟩ := Option.isSome_iff_exists.mp h
    obtain ⟨a, ha, hc⟩ := Option.bind_eq_some_iff.mp hc
    simp only [ha]
    rw [l.get_set _ s (Option.isSome_of_eq_some ha), Option.bind_some,
      l'.get_set b a (Option.isSome_of_eq_some hc)]
  set_get b s h := by
    obtain ⟨a, ha, hb⟩ := Option.bind_eq_some_iff.mp h
    simp only [ha]
    rw [l'.set_get b a hb, l.set_get a s ha]
  set_set b c s := by
    cases ha : l.get s with
    | none => simp only [ha]
    | some a =>
      simp only [l.get_set _ s (Option.isSome_of_eq_some ha)]
      rw [l'.set_set, l.set_set]

theorem comp_set {l : Slot σ α} {l' : Slot α β} {s : σ} {a : α} (h : l.get s = some a) (b : β) :
    (l.comp l').set b s = l.set (l'.set b a) s := by
  show (match l.get s with | none => s | some a => l.set (l'.set b a) s) = _
  rw [h]

end Slot
