import CudaProfile.Proofs.AddressSet.Equality
import CudaProfile.Symbols.Table
/-!
# Symbols that belong together

Which symbols of an object belong together is asked from either side, and each
question is answered by a search of its own: from a function by the sets of the
statements or the heads of the loops, from a statement by the sets of the
functions, and from a loop as for any address. Both sides get the same answer,
and every answer holds entries of the one object only.
-/

namespace CudaProfile

namespace AddressSet

theorem isEmpty_eq_false_iff {s : AddressSet} :
    s.isEmpty = false ↔ ∃ x, s.contains x = true := by
  rw [← Bool.not_eq_true, isEmpty_iff]
  simp

end AddressSet

namespace Symbol

variable {α β : Type}

theorem meets_iff {s : Symbol α} {t : Symbol β} :
    s.meets t = true ↔
      ∃ x, s.ranges.contains x = true ∧ t.ranges.contains x = true := by
  unfold meets
  rw [Bool.not_eq_true', AddressSet.isEmpty_eq_false_iff]
  simp only [AddressSet.contains_intersection, Bool.and_eq_true]

end Symbol

namespace Entry

variable {α : Type}

theorem mem_ofOwner {owner : Nat} {entries : List (Entry α)}
    {e : Entry α × Nat} :
    e ∈ ofOwner owner entries ↔
      entries[e.2]? = some e.1 ∧ e.1.owner = owner := by
  unfold ofOwner
  rw [List.mem_filter, List.mem_zipIdx_iff_getElem?, decide_eq_true_iff]

def Within (owner : Nat) (entries : List (Entry α))
    (found : List (Entry α × Nat)) : Prop :=
  ∀ e ∈ found, entries[e.2]? = some e.1 ∧ e.1.owner = owner

theorem within_filter (owner : Nat) (entries : List (Entry α))
    (p : Entry α × Nat → Bool) :
    Within owner entries ((ofOwner owner entries).filter p) :=
  fun _ he => mem_ofOwner.mp (List.mem_of_mem_filter he)

theorem mem_filter_ofOwner {owner : Nat} {entries : List (Entry α)}
    {p : Entry α × Nat → Bool} {id : Nat} {e : Entry α}
    (he : entries[id]? = some e) (howner : e.owner = owner) :
    (e, id) ∈ (ofOwner owner entries).filter p ↔ p (e, id) = true := by
  rw [List.mem_filter]
  exact and_iff_right (mem_ofOwner.mpr ⟨he, howner⟩)

end Entry

namespace SymbolTable

variable {t : SymbolTable}

/-! ## Functions and statements -/

section Statements

variable {i k : Nat} {f : Entry String} {s : Entry SourcePlace}

theorem mem_statementsOfFunction (hs : t.statements[k]? = some s)
    (howner : f.owner = s.owner) :
    (s, k) ∈ t.statementsOfFunction f ↔
      ∃ x, f.symbol.ranges.contains x = true ∧
        s.symbol.ranges.contains x = true :=
  (Entry.mem_filter_ofOwner hs howner.symm).trans Symbol.meets_iff

theorem mem_functionsOfStatement (hf : t.functions[i]? = some f)
    (howner : f.owner = s.owner) :
    (f, i) ∈ t.functionsOfStatement s ↔
      ∃ x, s.symbol.ranges.contains x = true ∧
        f.symbol.ranges.contains x = true :=
  (Entry.mem_filter_ofOwner hf howner).trans Symbol.meets_iff

end Statements

/-! ## Functions and loops -/

section Loops

variable {i j : Nat} {f : Entry String} {l : Entry Address}

theorem mem_loopsOfFunction (hl : t.loops[j]? = some l)
    (howner : f.owner = l.owner) :
    (l, j) ∈ t.loopsOfFunction f ↔
      f.symbol.ranges.contains l.symbol.item = true :=
  Entry.mem_filter_ofOwner hl howner.symm

theorem mem_functionsOfLoop (hf : t.functions[i]? = some f)
    (howner : f.owner = l.owner) :
    (f, i) ∈ t.functionsOfLoop l ↔
      f.symbol.ranges.contains l.symbol.item = true :=
  Entry.mem_filter_ofOwner hf howner

end Loops

/-! ## Both sides -/

/-- A function and a statement of one object are found of each other exactly if
they share an address, a function and a loop exactly if the function holds the
head of the loop. Whatever is asked, the answer holds no entry of another
object. -/
theorem queries_agree (t : SymbolTable) :
    (∀ (i k : Nat) (f : Entry String) (s : Entry SourcePlace),
      t.functions[i]? = some f → t.statements[k]? = some s →
      f.owner = s.owner →
        ((s, k) ∈ t.statementsOfFunction f ↔
          (f, i) ∈ t.functionsOfStatement s) ∧
        ((f, i) ∈ t.functionsOfStatement s ↔
          ∃ x, f.symbol.ranges.contains x = true ∧
            s.symbol.ranges.contains x = true)) ∧
    (∀ (i j : Nat) (f : Entry String) (l : Entry Address),
      t.functions[i]? = some f → t.loops[j]? = some l → f.owner = l.owner →
        ((l, j) ∈ t.loopsOfFunction f ↔ (f, i) ∈ t.functionsOfLoop l) ∧
        ((f, i) ∈ t.functionsOfLoop l ↔
          f.symbol.ranges.contains l.symbol.item = true)) ∧
    (∀ f, Entry.Within f.owner t.loops (t.loopsOfFunction f) ∧
      Entry.Within f.owner t.statements (t.statementsOfFunction f)) ∧
    (∀ l, Entry.Within l.owner t.functions (t.functionsOfLoop l)) ∧
    (∀ s, Entry.Within s.owner t.functions (t.functionsOfStatement s)) ∧
    ∀ object,
      (∀ address,
        Entry.Within object t.functions (t.functionsAt object address) ∧
        Entry.Within object t.loops (t.loopsAt object address) ∧
        Entry.Within object t.statements (t.statementsAt object address)) ∧
      ∀ name,
        Entry.Within object t.functions (t.functionsNamed object name) := by
  refine ⟨?_, ?_, ?_, ?_, ?_, ?_⟩
  · intro i k f s hf hs howner
    have hstatements := mem_statementsOfFunction hs howner
    have hfunctions := mem_functionsOfStatement hf howner
    have hswap : (∃ x, s.symbol.ranges.contains x = true ∧
        f.symbol.ranges.contains x = true) ↔
          ∃ x, f.symbol.ranges.contains x = true ∧
            s.symbol.ranges.contains x = true :=
      exists_congr fun x => And.comm
    exact ⟨hstatements.trans (hfunctions.trans hswap).symm,
      hfunctions.trans hswap⟩
  · intro i j f l hf hl howner
    have hloops := mem_loopsOfFunction hl howner
    have hfunctions := mem_functionsOfLoop hf howner
    exact ⟨hloops.trans hfunctions.symm, hfunctions⟩
  · intro f
    exact ⟨Entry.within_filter _ _ _, Entry.within_filter _ _ _⟩
  · intro l
    exact Entry.within_filter _ _ _
  · intro s
    exact Entry.within_filter _ _ _
  · intro object
    refine ⟨?_, fun name => Entry.within_filter _ _ _⟩
    intro address
    exact ⟨Entry.within_filter _ _ _, Entry.within_filter _ _ _,
      Entry.within_filter _ _ _⟩

def twoObjects : SymbolTable where
  objects := [⟨"/bin/a", 1⟩, ⟨"/bin/a", 1⟩]
  functions := [⟨1, "f", .ofStored [⟨0, 63⟩] false⟩,
    ⟨0, "f", .ofStored [⟨8, 9⟩] true⟩]
  loops := [⟨0, 8, .empty⟩, ⟨0, 10, .empty⟩, ⟨1, 8, .empty⟩]
  statements := [⟨0, ⟨⟨"a.c", 0⟩, 4, 1⟩, .ofStored [⟨8, 9⟩] false⟩,
    ⟨1, ⟨⟨"a.c", 0⟩, 4, 1⟩, .ofStored [⟨8, 9⟩] false⟩,
    ⟨0, ⟨⟨"a.c", 0⟩, 5, 1⟩, .ofStored [⟨8, 9⟩] true⟩]

theorem queries_agree_complemented :
    let t := twoObjects
    let f : Entry String := ⟨0, "f", .ofStored [⟨8, 9⟩] true⟩
    let s : Entry SourcePlace :=
      ⟨0, ⟨⟨"a.c", 0⟩, 4, 1⟩, .ofStored [⟨8, 9⟩] false⟩
    let l : Entry Address := ⟨0, 10, .empty⟩
    t.functions[1]? = some f ∧ t.statements[0]? = some s ∧
      t.loops[1]? = some l ∧
      (s, 0) ∉ t.statementsOfFunction f ∧ (f, 1) ∉ t.functionsOfStatement s ∧
      (l, 1) ∈ t.loopsOfFunction f ∧ (f, 1) ∈ t.functionsOfLoop l := by
  intro t f s l
  rcases queries_agree t with ⟨hstatements, hloops, _⟩
  have hfound : (t.statementsOfFunction f).map Prod.snd = [2] := by
    cbv
  have hstatement : (s, 0) ∉ t.statementsOfFunction f := by
    intro hmem
    have hnumber : 0 ∈ (t.statementsOfFunction f).map Prod.snd :=
      List.mem_map_of_mem hmem
    rw [hfound] at hnumber
    exact absurd hnumber (by decide)
  have hloop : f.symbol.ranges.contains l.symbol.item = true := by
    cbv
  refine ⟨rfl, rfl, rfl, hstatement, ?_, ?_, ?_⟩
  · exact mt (hstatements 1 0 f s rfl rfl rfl).1.mpr hstatement
  · exact ((hloops 1 1 f l rfl rfl rfl).1.trans
      (hloops 1 1 f l rfl rfl rfl).2).mpr hloop
  · exact (hloops 1 1 f l rfl rfl rfl).2.mpr hloop

end SymbolTable
end CudaProfile
