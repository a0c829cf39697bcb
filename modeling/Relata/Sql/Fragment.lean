import Relata.Value

/-!
A fragment is a piece of SQL together with the values of its placeholders, in their order. Fragments
are put one after another as texts are, and their values go along; so the values of a statement
stand in the order of its placeholders if those of its pieces do.
-/

namespace Relata.Sql

/-- A text set into another one is itself. -/
@[simp] theorem toString_text (s : String) : toString s = s := rfl

structure Fragment where
  text : String
  values : List Value
deriving Inhabited

namespace Fragment

def empty : Fragment := ⟨"", []⟩

/-- A piece of SQL without placeholders of its own. -/
def plain (text : String) : Fragment := ⟨text, []⟩

instance : Append Fragment := ⟨fun a b => ⟨a.text ++ b.text, a.values ++ b.values⟩⟩

theorem mk_append (s t : String) (vs ws : List Value) :
    (⟨s, vs⟩ ++ ⟨t, ws⟩ : Fragment) = ⟨s ++ t, vs ++ ws⟩ := rfl

@[simp] theorem text_append (a b : Fragment) : (a ++ b).text = a.text ++ b.text := rfl
@[simp] theorem values_append (a b : Fragment) : (a ++ b).values = a.values ++ b.values := rfl

@[simp] theorem text_plain (s : String) : (plain s).text = s := rfl
@[simp] theorem values_plain (s : String) : (plain s).values = [] := rfl

/-- The fragments one after another. -/
def concat : List Fragment → Fragment
  | [] => empty
  | f :: rest => f ++ concat rest

@[simp] theorem text_concat_nil : (concat []).text = "" := rfl
@[simp] theorem values_concat_nil : (concat []).values = [] := rfl

@[simp] theorem text_concat_cons (f : Fragment) (rest : List Fragment) :
    (concat (f :: rest)).text = f.text ++ (concat rest).text := rfl

@[simp] theorem values_concat_cons (f : Fragment) (rest : List Fragment) :
    (concat (f :: rest)).values = f.values ++ (concat rest).values := rfl

/-- The number of placeholders in a text. -/
def placeholders (text : String) : Nat := text.toList.count '?'

/-- As many placeholders as values. -/
def Balanced (f : Fragment) : Prop := placeholders f.text = f.values.length

@[simp] theorem placeholders_append (s t : String) :
    placeholders (s ++ t) = placeholders s + placeholders t := by
  simp [placeholders, List.count_append]

theorem Balanced.append {a b : Fragment} (ha : a.Balanced) (hb : b.Balanced) :
    (a ++ b).Balanced := by
  simp only [Balanced, text_append, values_append, placeholders_append, List.length_append] at *
  omega

theorem balanced_empty : empty.Balanced := by
  simp [Balanced, empty, placeholders]

theorem balanced_plain {s : String} (unmarked : placeholders s = 0) : (plain s).Balanced := unmarked

/-- Balanced pieces make a balanced whole. -/
theorem balanced_concat : ∀ {fs : List Fragment}, (∀ f ∈ fs, f.Balanced) → (concat fs).Balanced
  | [], _ => balanced_empty
  | f :: rest, h => by
    have hf := h f (by simp)
    have hrest := @balanced_concat rest fun g hg => h g (by simp [hg])
    exact hf.append hrest

end Fragment

end Relata.Sql
