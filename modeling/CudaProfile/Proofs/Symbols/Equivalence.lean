import CudaProfile.Proofs.AddressSet.Equality
import CudaProfile.Proofs.Lists
import CudaProfile.Proofs.Order.Sorting
import CudaProfile.Proofs.Symbols.Restoring
/-!
# Objects with the same symbols

Two objects are compared by bringing the symbols of each into the order of
their items and going through both lists at once. Symbols of one item stay in
the order in which they were added, so the comparison sees whether, item by
item, the symbols of both objects have the same addresses one after the other.
If it succeeds then the symbols correspond one to one. The converse holds as
far as an object has no two symbols of one item with different addresses.

The files of statements need not be ordered consistently, since an unknown
checksum agrees with every other. They are if agreement carries over among
them.
-/

namespace CudaProfile

open Std Sorting Lexicographic

namespace Symbol

variable {α κ : Type} {order : α → α → Ordering} {items : α → α → Bool}

/-- Whether symbols agree one to one, in whatever order they come. -/
def Correspond (items : α → α → Bool) (ss ts : List (Symbol α)) : Prop :=
  ∃ us, List.Forall₂ (fun s u => s.agrees items u = true) ss us ∧ us.Perm ts

/-- Whether the symbols of any one item have the same addresses in two lists,
one after the other. -/
def InStep (items : α → α → Bool) (ss ts : List (Symbol α)) : Prop :=
  ∀ s ∈ ss ++ ts, List.Forall₂ (fun t u => t.ranges.same u.ranges = true)
    (ss.filter fun t => items s.item t.item)
    (ts.filter fun u => items s.item u.item)

def Unambiguous (items : α → α → Bool) (ss : List (Symbol α)) : Prop :=
  ∀ s ∈ ss, ∀ t ∈ ss, items s.item t.item = true →
    s.ranges.same t.ranges = true

theorem unambiguous_of_pairwise {ss : List (Symbol α)}
    (h : ss.Pairwise fun s t =>
      items s.item t.item = false ∧ items t.item s.item = false) :
    Unambiguous items ss := by
  intro s hs t ht hagree
  by_cases hsame : s = t
  · rw [hsame]
    exact t.ranges.same_self
  · have : Std.Symm fun s t : Symbol α =>
        items s.item t.item = false ∧ items t.item s.item = false :=
      ⟨fun _ _ => And.symm⟩
    have hapart := h.forall hs ht hsame
    exact absurd (hapart.1.symm.trans hagree) Bool.false_ne_true

theorem agrees_iff {s t : Symbol α} :
    s.agrees items t = true ↔
      items s.item t.item = true ∧ s.ranges.same t.ranges = true :=
  Bool.and_eq_true_iff

theorem agrees_of_items {x y : α} (ranges : AddressSet)
    (h : items x y = true) :
    agrees items ⟨x, ranges⟩ ⟨y, ranges⟩ = true :=
  agrees_iff.mpr ⟨h, ranges.same_self⟩

/-! ## Comparing sorted lists -/

def sorted (order : α → α → Ordering) (ss : List (Symbol α)) :
    List (Symbol α) :=
  sortBy (fun s t => order s.item t.item = .lt) ss

theorem sorted_perm (ss : List (Symbol α)) : (sorted order ss).Perm ss :=
  sortBy_perm _ ss

theorem listsAgree_iff_forall₂ (ss ts : List (Symbol α)) :
    listsAgree order items ss ts = true ↔
      List.Forall₂ (fun s t => s.agrees items t = true) (sorted order ss)
        (sorted order ts) := by
  rw [List.forall₂_iff_zip, (sorted_perm ss).length_eq,
    (sorted_perm ts).length_eq, listsAgree, Bool.and_eq_true_iff,
    decide_eq_true_iff, List.all_eq_true]
  constructor
  · intro h
    exact ⟨h.1, fun hpair => h.2 _ hpair⟩
  · intro h
    exact ⟨h.1, fun pair hpair => h.2 hpair⟩

theorem correspond_of_listsAgree {ss ts : List (Symbol α)}
    (h : listsAgree order items ss ts = true) : Correspond items ss ts := by
  rcases List.perm_comp_forall₂ (sorted_perm ss).symm
    ((listsAgree_iff_forall₂ ss ts).mp h) with ⟨us, hagree, hperm⟩
  exact ⟨us, hagree, hperm.trans (sorted_perm ts)⟩

/-! ## Orders by a key -/

/-- Whether the items of symbols are compared by a key, and agree if they have
equal keys. -/
structure Keyed [Ord κ] (order : α → α → Ordering) (items : α → α → Bool)
    (key : α → κ) (ss : List (Symbol α)) : Prop where
  order_eq : ∀ s ∈ ss, ∀ t ∈ ss,
    order s.item t.item = compare (key s.item) (key t.item)
  agree_iff : ∀ s ∈ ss, ∀ t ∈ ss,
    items s.item t.item = true ↔ compare (key s.item) (key t.item) = .eq

namespace Keyed

variable [Ord κ] [TransOrd κ] {key : α → κ} {all ss ts : List (Symbol α)}

theorem weakOrder (h : Keyed order items key all) :
    WeakOrder (fun s t : Symbol α => order s.item t.item = .lt) (· ∈ all) where
  asymm {s t} hs ht hless := by
    rw [decide_eq_true_iff, h.order_eq s hs t ht] at hless
    rw [decide_eq_false_iff_not, h.order_eq t ht s hs]
    exact OrientedCmp.not_lt_of_lt hless
  between {s t u} hs ht hu hless := by
    rw [decide_eq_true_iff, h.order_eq s hs u hu] at hless
    rw [decide_eq_true_iff, decide_eq_true_iff, h.order_eq s hs t ht,
      h.order_eq t ht u hu]
    cases hst : compare (key s.item) (key t.item) with
    | lt =>
        exact Or.inl rfl
    | eq =>
        exact Or.inr (TransCmp.lt_of_eq_of_lt (OrientedCmp.eq_symm hst) hless)
    | gt =>
        exact Or.inr (TransCmp.lt_trans (OrientedCmp.lt_of_gt hst) hless)

theorem same_eq (h : Keyed order items key all) {s t : Symbol α}
    (hs : s ∈ all) (ht : t ∈ all) :
    same (fun s t : Symbol α => order s.item t.item = .lt) s t =
      items s.item t.item := by
  have hswap : compare (key t.item) (key s.item) =
      (compare (key s.item) (key t.item)).swap :=
    OrientedCmp.eq_swap
  apply Bool.eq_iff_iff.mpr
  rw [same_iff, h.agree_iff s hs t ht, decide_eq_false_iff_not,
    decide_eq_false_iff_not, h.order_eq s hs t ht, h.order_eq t ht s hs, hswap]
  cases compare (key s.item) (key t.item) with
  | lt =>
      simp
  | eq =>
      simp
  | gt =>
      simp

theorem agree_congr (h : Keyed order items key all) {s t u : Symbol α}
    (hs : s ∈ all) (ht : t ∈ all) (hu : u ∈ all)
    (hagree : items t.item u.item = true) :
    items s.item t.item = items s.item u.item := by
  rw [← h.same_eq ht hu] at hagree
  rw [← h.same_eq hs ht, ← h.same_eq hs hu]
  exact h.weakOrder.same_congr ht hu hs hagree

theorem agree_symm (h : Keyed order items key all) {s t : Symbol α}
    (hs : s ∈ all) (ht : t ∈ all) (hagree : items s.item t.item = true) :
    items t.item s.item = true := by
  rw [← h.same_eq ht hs, same_comm, h.same_eq hs ht]
  exact hagree

theorem agree_of_agree (h : Keyed order items key all) {s t u : Symbol α}
    (hs : s ∈ all) (ht : t ∈ all) (hu : u ∈ all)
    (hst : items s.item t.item = true) (hsu : items s.item u.item = true) :
    items t.item u.item = true := by
  rw [← h.agree_congr ht hs hu hsu]
  exact h.agree_symm hs ht hst

theorem sorted_sorts (h : Keyed order items key all)
    (hss : ∀ s ∈ ss, s ∈ all) :
    Sorts (fun s t : Symbol α => order s.item t.item = .lt) (· ∈ all)
      (sorted order ss) ss :=
  sortBy_sorts h.weakOrder hss

theorem filter_same (h : Keyed order items key all)
    (hss : ∀ s ∈ ss, s ∈ all) {s : Symbol α} (hs : s ∈ all) :
    ss.filter (same (fun s t : Symbol α => order s.item t.item = .lt) s) =
      ss.filter fun t => items s.item t.item :=
  List.filter_congr fun t ht => h.same_eq hs (hss t ht)

theorem filter_sorted (h : Keyed order items key all)
    (hss : ∀ s ∈ ss, s ∈ all) {s : Symbol α} (hs : s ∈ all) :
    (sorted order ss).filter (fun t => items s.item t.item) =
      ss.filter fun t => items s.item t.item := by
  have hsorted := h.sorted_sorts hss
  rw [← h.filter_same (hsorted.forall_mem hss) hs, ← h.filter_same hss hs]
  exact hsorted.classes s hs

end Keyed

/-! ## Symbols in step -/

section InStep

variable [Ord κ] [TransOrd κ] {key : α → κ} {ss ts : List (Symbol α)}

theorem listsAgree_iff_inStep (h : Keyed order items key (ss ++ ts)) :
    listsAgree order items ss ts = true ↔ InStep items ss ts := by
  have hss : ∀ s ∈ ss, s ∈ ss ++ ts := fun s hs => List.mem_append_left ts hs
  have hts : ∀ t ∈ ts, t ∈ ss ++ ts := fun t ht => List.mem_append_right ss ht
  have hsorted := h.sorted_sorts hss
  have hsorted' := h.sorted_sorts hts
  have hmem := hsorted.forall_mem hss
  have hmem' := hsorted'.forall_mem hts
  rw [listsAgree_iff_forall₂]
  constructor
  · intro hagree s hs
    rw [← h.filter_sorted hss hs, ← h.filter_sorted hts hs]
    refine (forall₂_filter hagree ?_).imp fun t u htu => (agrees_iff.mp htu).2
    intro t ht u hu htu
    exact h.agree_congr hs (hmem t ht) (hmem' u hu) (agrees_iff.mp htu).1
  · intro hstep
    refine hsorted.ordered.forall₂ h.weakOrder hmem hmem' hsorted'.ordered ?_
    intro s hs
    rw [hsorted.classes s hs, hsorted'.classes s hs, h.filter_same hss hs,
      h.filter_same hts hs]
    refine forall₂_imp_of_mem (hstep s hs) ?_
    intro t ht u hu hranges
    rcases List.mem_filter.mp ht with ⟨ht, hst⟩
    rcases List.mem_filter.mp hu with ⟨hu, hsu⟩
    exact agrees_iff.mpr
      ⟨h.agree_of_agree hs (hss t ht) (hts u hu) hst hsu, hranges⟩

/-- Symbols that correspond are in step if no two of one item differ: their
order in the lists is then of no account. -/
theorem inStep_of_correspond (h : Keyed order items key (ss ++ ts))
    (hcorrespond : Correspond items ss ts) (hunique : Unambiguous items ss) :
    InStep items ss ts := by
  rcases hcorrespond with ⟨us, hagree, hperm⟩
  have hss : ∀ s ∈ ss, s ∈ ss ++ ts := fun s hs => List.mem_append_left ts hs
  have hus : ∀ u ∈ us, u ∈ ss ++ ts := fun u hu =>
    List.mem_append_right ss (hperm.mem_iff.mp hu)
  intro s hs
  have hkind := forall₂_filter hagree fun t ht u hu htu =>
    h.agree_congr hs (hss t ht) (hus u hu) (agrees_iff.mp htu).1
  have hpermuted := hperm.filter fun u => items s.item u.item
  refine forall₂_of_forall_mem (hkind.length_eq.trans hpermuted.length_eq) ?_
  intro t ht u hu
  rcases exists_of_forall₂ hkind (hpermuted.mem_iff.mpr hu) with
    ⟨v, hv, hvu⟩
  rcases List.mem_filter.mp ht with ⟨ht, hst⟩
  rcases List.mem_filter.mp hv with ⟨hv, hsv⟩
  have htv := hunique t ht v hv
    (h.agree_of_agree hs (hss t ht) (hss v hv) hst hsv)
  exact AddressSet.same_trans htv (agrees_iff.mp hvu).2

end InStep
end Symbol

/-! ## The places of statements -/

namespace FileName

def Transitive (files : List FileName) : Prop :=
  ∀ f ∈ files, ∀ g ∈ files, ∀ h ∈ files,
    f.agrees g = true → g.agrees h = true → f.agrees h = true

instance (files : List FileName) : Decidable (Transitive files) :=
  inferInstanceAs (Decidable (∀ f ∈ files, ∀ g ∈ files, ∀ h ∈ files, _ → _))

theorem same_iff_compare (p q : String) :
    Path.same p q = true ↔
      compare (Path.components p) (Path.components q) = .eq := by
  rw [Path.same, decide_eq_true_iff, Std.compare_eq_iff_eq]

theorem agrees_iff (f g : FileName) :
    f.agrees g = true ↔ Path.same f.path g.path = true ∧
      (f.checksum = 0 ∨ g.checksum = 0 ∨ f.checksum = g.checksum) := by
  simp [agrees, or_assoc]

theorem agrees_iff_order (f g : FileName) :
    f.agrees g = true ↔ f.order g = .eq := by
  rw [agrees_iff, order, Path.order, same_iff_compare, Ordering.then_eq_eq]
  apply and_congr_right
  intro _
  split
  · next hunknown =>
    rw [Bool.or_eq_true_iff, decide_eq_true_iff, decide_eq_true_iff] at hunknown
    exact iff_of_true (hunknown.imp_right Or.inl) rfl
  · next hknown =>
    rw [Bool.or_eq_true_iff, decide_eq_true_iff, decide_eq_true_iff,
      not_or] at hknown
    rw [Std.compare_eq_iff_eq, or_iff_right hknown.1, or_iff_right hknown.2]

def unknownIn (files : List FileName) (f : FileName) : Bool :=
  files.any fun g => Path.same f.path g.path && g.checksum = 0

/-- The checksum of a file, but zero if it is unknown for some file of the
path. -/
def commonChecksum (files : List FileName) (f : FileName) : UInt64 :=
  if unknownIn files f then 0 else f.checksum

def key (files : List FileName) (f : FileName) :
    List Path.Component × UInt64 :=
  (Path.components f.path, f.commonChecksum files)

theorem unknownIn_iff {files : List FileName} {f : FileName} :
    unknownIn files f = true ↔
      ∃ g ∈ files, Path.same f.path g.path = true ∧ g.checksum = 0 := by
  simp [unknownIn]

theorem unknownIn_congr (files : List FileName) {f g : FileName}
    (h : Path.same f.path g.path = true) :
    unknownIn files f = unknownIn files g := by
  rw [Path.same, decide_eq_true_iff] at h
  simp only [unknownIn, Path.same, h]

/-- Files of one path compare by their checksums, and are equal if one of them
is unknown. -/
theorem compare_checksum {files : List FileName} (h : Transitive files)
    {f g : FileName} (hf : f ∈ files) (hg : g ∈ files)
    (hpath : Path.same f.path g.path = true) :
    (if f.checksum = 0 || g.checksum = 0 then Ordering.eq
      else compare f.checksum g.checksum) =
        compare (f.commonChecksum files) (g.commonChecksum files) := by
  rw [commonChecksum, commonChecksum, ← unknownIn_congr files hpath]
  cases hunknown : unknownIn files f with
  | true =>
      rcases unknownIn_iff.mp hunknown with ⟨k, hk, hsame, hzero⟩
      have hfk : f.agrees k = true :=
        (agrees_iff f k).mpr ⟨hsame, Or.inr (Or.inl hzero)⟩
      have hkg : k.agrees g = true := by
        refine (agrees_iff k g).mpr ⟨?_, Or.inl hzero⟩
        rw [Path.same, decide_eq_true_iff] at hsame hpath ⊢
        exact hsame.symm.trans hpath
      have hfg := (agrees_iff_order f g).mp (h f hf k hk g hg hfk hkg)
      exact (Ordering.then_eq_eq.mp hfg).2
  | false =>
      have hknown : ∀ k ∈ files, Path.same f.path k.path = true →
          k.checksum ≠ 0 := by
        intro k hk hsame hzero
        have htrue := unknownIn_iff.mpr ⟨k, hk, hsame, hzero⟩
        exact Bool.false_ne_true (hunknown.symm.trans htrue)
      have hself : Path.same f.path f.path = true := decide_eq_true rfl
      simp [hknown f hf hself, hknown g hg hpath]

theorem order_eq_compare_key {files : List FileName} (h : Transitive files)
    {f g : FileName} (hf : f ∈ files) (hg : g ∈ files) :
    f.order g = compare (f.key files) (g.key files) := by
  have hkeys : compare (f.key files) (g.key files) =
      (compare (Path.components f.path) (Path.components g.path)).then
        (compare (f.commonChecksum files) (g.commonChecksum files)) :=
    rfl
  rw [hkeys, order, Path.order]
  cases hcompare : compare (Path.components f.path)
      (Path.components g.path) with
  | lt =>
      rfl
  | eq =>
      exact compare_checksum h hf hg ((same_iff_compare _ _).mpr hcompare)
  | gt =>
      rfl

end FileName
namespace SourcePlace

def key (files : List FileName) (p : SourcePlace) :
    (List Path.Component × UInt64) × (UInt32 × UInt32) :=
  (p.file.key files, p.line, p.column)

theorem agrees_iff_order (p q : SourcePlace) :
    p.agrees q = true ↔ p.order q = .eq := by
  rw [agrees, order, Ordering.then_eq_eq, Ordering.then_eq_eq,
    Bool.and_eq_true_iff, Bool.and_eq_true_iff, decide_eq_true_iff,
    decide_eq_true_iff, FileName.agrees_iff_order, Std.compare_eq_iff_eq,
    Std.compare_eq_iff_eq, and_assoc]

theorem order_eq_compare_key {files : List FileName}
    (h : FileName.Transitive files) {p q : SourcePlace} (hp : p.file ∈ files)
    (hq : q.file ∈ files) :
    p.order q = compare (p.key files) (q.key files) := by
  rw [order, FileName.order_eq_compare_key h hp hq]
  rfl

end SourcePlace

namespace Symbol

theorem keyed_id {α : Type} [Ord α] [LawfulEqOrd α] [DecidableEq α]
    (ss : List (Symbol α)) :
    Keyed compare (fun x y => x = y) id ss where
  order_eq _ _ _ _ := rfl
  agree_iff _ _ _ _ := decide_eq_true_iff.trans Std.compare_eq_iff_eq.symm

theorem keyed_place {ss : List (Symbol SourcePlace)} {files : List FileName}
    (h : FileName.Transitive files) (hss : ∀ s ∈ ss, s.item.file ∈ files) :
    Keyed SourcePlace.order SourcePlace.agrees (SourcePlace.key files) ss where
  order_eq s hs t ht :=
    SourcePlace.order_eq_compare_key h (hss s hs) (hss t ht)
  agree_iff s hs t ht := by
    rw [SourcePlace.agrees_iff_order,
      SourcePlace.order_eq_compare_key h (hss s hs) (hss t ht)]

end Symbol

/-! ## Objects -/

namespace ObjectContents

/-- Whether two objects can be of one file and their symbols agree one to
one. -/
structure Corresponds (a b : ObjectContents) : Prop where
  file : a.file.agrees b.file = true
  functions : Symbol.Correspond (fun x y => x = y) a.functions b.functions
  loops : Symbol.Correspond (fun x y => x = y) a.loops b.loops
  statements : Symbol.Correspond SourcePlace.agrees a.statements b.statements

/-- Whether two objects can be of one file and the symbols of any one item have
the same addresses in both, one after the other. -/
structure InStep (a b : ObjectContents) : Prop where
  file : a.file.agrees b.file = true
  functions : Symbol.InStep (fun x y => x = y) a.functions b.functions
  loops : Symbol.InStep (fun x y => x = y) a.loops b.loops
  statements : Symbol.InStep SourcePlace.agrees a.statements b.statements

structure Unambiguous (c : ObjectContents) : Prop where
  functions : Symbol.Unambiguous (fun x y => x = y) c.functions
  loops : Symbol.Unambiguous (fun x y => x = y) c.loops
  statements : Symbol.Unambiguous SourcePlace.agrees c.statements

def statementFiles (a b : ObjectContents) : List FileName :=
  (a.statements ++ b.statements).map fun s => s.item.file

theorem equivalent_iff (a b : ObjectContents) :
    a.equivalent b = true ↔ a.file.agrees b.file = true ∧
      Symbol.listsAgree compare (fun x y => x = y) a.functions b.functions =
        true ∧
      Symbol.listsAgree compare (fun x y => x = y) a.loops b.loops = true ∧
      Symbol.listsAgree SourcePlace.order SourcePlace.agrees a.statements
        b.statements = true := by
  simp only [equivalent, Bool.and_eq_true_iff, and_assoc]

theorem corresponds_of_equivalent {a b : ObjectContents}
    (h : a.equivalent b = true) : a.Corresponds b := by
  rcases (equivalent_iff a b).mp h with ⟨hfile, hfunctions, hloops, hstatements⟩
  exact ⟨hfile, Symbol.correspond_of_listsAgree hfunctions,
    Symbol.correspond_of_listsAgree hloops,
    Symbol.correspond_of_listsAgree hstatements⟩

variable {a b : ObjectContents}

theorem keyed_statements (h : FileName.Transitive (statementFiles a b)) :
    Symbol.Keyed SourcePlace.order SourcePlace.agrees
      (SourcePlace.key (statementFiles a b)) (a.statements ++ b.statements) :=
  Symbol.keyed_place h fun _ hs => List.mem_map_of_mem hs

theorem equivalent_iff_inStep (h : FileName.Transitive (statementFiles a b)) :
    a.equivalent b = true ↔ a.InStep b := by
  rw [equivalent_iff, Symbol.listsAgree_iff_inStep (Symbol.keyed_id _),
    Symbol.listsAgree_iff_inStep (Symbol.keyed_id _),
    Symbol.listsAgree_iff_inStep (keyed_statements h)]
  constructor
  · intro hparts
    rcases hparts with ⟨hfile, hfunctions, hloops, hstatements⟩
    exact ⟨hfile, hfunctions, hloops, hstatements⟩
  · intro hstep
    exact ⟨hstep.file, hstep.functions, hstep.loops, hstep.statements⟩

theorem Corresponds.inStep (h : FileName.Transitive (statementFiles a b))
    (hcorresponds : a.Corresponds b) (hunique : a.Unambiguous) :
    a.InStep b where
  file := hcorresponds.file
  functions := Symbol.inStep_of_correspond (Symbol.keyed_id _)
    hcorresponds.functions hunique.functions
  loops := Symbol.inStep_of_correspond (Symbol.keyed_id _)
    hcorresponds.loops hunique.loops
  statements := Symbol.inStep_of_correspond (keyed_statements h)
    hcorresponds.statements hunique.statements

end ObjectContents

namespace SymbolStore

theorem equivalent_of_contents {s : SymbolStore} {a b : Handle}
    {ca cb : ObjectContents} (ha : s.contents? a = some ca)
    (hb : s.contents? b = some cb) : s.equivalent a b = ca.equivalent cb := by
  unfold equivalent
  rw [ha, hb]

/-- Objects that compare as equivalent have the same symbols. As far as
agreement carries over among the files of their statements, they compare as
equivalent exactly if the symbols of any one item have the same addresses one
after the other, and exactly if they have the same symbols where no two of one
item differ. -/
theorem equivalent_iff_symbols_in_step {s : SymbolStore} {a b : Handle}
    {ca cb : ObjectContents} (ha : s.contents? a = some ca)
    (hb : s.contents? b = some cb) :
    (s.equivalent a b = true → ca.Corresponds cb) ∧
      (FileName.Transitive (ObjectContents.statementFiles ca cb) →
        (s.equivalent a b = true ↔ ca.InStep cb) ∧
        (ca.Unambiguous →
          (s.equivalent a b = true ↔ ca.Corresponds cb))) := by
  rw [equivalent_of_contents ha hb]
  refine ⟨ObjectContents.corresponds_of_equivalent, ?_⟩
  intro hfiles
  have hstep := ObjectContents.equivalent_iff_inStep hfiles
  refine ⟨hstep, ?_⟩
  intro hunique
  refine ⟨ObjectContents.corresponds_of_equivalent, ?_⟩
  intro hcorresponds
  exact hstep.mpr (hcorresponds.inStep hfiles hunique)

def pair : AddressSet :=
  .ofStored [⟨8, 9⟩] false

def statementAt (checksum : UInt64) (line : UInt32) : Symbol SourcePlace :=
  .new ⟨⟨"/a.c", checksum⟩, line, 1⟩

def added : ObjectContents :=
  ⟨⟨"/bin/a", 0⟩, [.new "g", ⟨"f", pair⟩], [],
    [statementAt 0 2, statementAt 5 1]⟩

def reordered : ObjectContents :=
  ⟨⟨"/bin//a", 1⟩, [⟨"f", pair⟩, .new "g"], [],
    [statementAt 5 1, statementAt 5 2]⟩

def both (a b : ObjectContents) : SymbolStore :=
  ((empty.addObject a).1.addObject b).1

theorem equivalent_iff_symbols_in_step_reordered :
    (both added reordered).contents? ⟨0, 0⟩ = some added ∧
      (both added reordered).contents? ⟨1, 0⟩ = some reordered ∧
      FileName.Transitive (ObjectContents.statementFiles added reordered) ∧
      added.Unambiguous ∧ added.Corresponds reordered ∧
      (both added reordered).equivalent ⟨0, 0⟩ ⟨1, 0⟩ = true ∧
      added.InStep reordered := by
  have hfirst : (both added reordered).contents? ⟨0, 0⟩ = some added := by
    cbv
  have hsecond : (both added reordered).contents? ⟨1, 0⟩ = some reordered := by
    cbv
  have hfiles : FileName.Transitive
      (ObjectContents.statementFiles added reordered) := by
    decide
  have hunique : added.Unambiguous :=
    ⟨Symbol.unambiguous_of_pairwise (by decide),
      Symbol.unambiguous_of_pairwise (by decide),
      Symbol.unambiguous_of_pairwise (by decide)⟩
  have hcorresponds : added.Corresponds reordered :=
    { file := by decide
      functions := ⟨_, .cons (Symbol.agrees_of_items _ (by decide))
        (.cons (Symbol.agrees_of_items _ (by decide)) .nil), .swap _ _ _⟩
      loops := ⟨[], .nil, .nil⟩
      statements := ⟨_, .cons (Symbol.agrees_of_items _ (by decide))
        (.cons (Symbol.agrees_of_items _ (by decide)) .nil), .swap _ _ _⟩ }
  rcases (equivalent_iff_symbols_in_step hfirst hsecond).2 hfiles with
    ⟨hstep, hsame⟩
  have hequivalent := (hsame hunique).mpr hcorresponds
  exact ⟨hfirst, hsecond, hfiles, hunique, hcorresponds, hequivalent,
    hstep.mp hequivalent⟩

-- Agreement does not carry over here: each of the three places is before the
-- next, and the last before the first, so no order of adding is the right one.
example : Symbol.listsAgree SourcePlace.order SourcePlace.agrees
    [statementAt 5 3, statementAt 7 1, statementAt 0 2]
    [statementAt 0 2, statementAt 5 3, statementAt 7 1] = false := by
  decide +kernel

def overload (ranges : AddressSet) : Symbol String :=
  ⟨"f", ranges⟩

def overloads : SymbolStore :=
  let s := (addTable ∅ ∅).1
  let s := (s.addTable ∅).1
  let s := (s.addContents 0 (.new ⟨"/bin/a", 1⟩)).1
  let s := (s.addContents 1 (.new ⟨"/bin/a", 1⟩)).1
  let s := (s.addFunction ⟨0, 0⟩ "f").1
  let s := (s.addFunction ⟨0, 0⟩ "f").1
  let s := (s.addFunction ⟨1, 0⟩ "f").1
  let s := (s.addFunction ⟨1, 0⟩ "f").1
  let s := s.addFunctionRanges ⟨0, 1⟩ pair
  s.addFunctionRanges ⟨1, 0⟩ pair

theorem equivalent_depends_on_order_of_adding :
    ¬∀ (s : SymbolStore) (a b : Handle) (ca cb : ObjectContents), s.Built →
      s.contents? a = some ca → s.contents? b = some cb →
        (s.equivalent a b = true ↔ ca.Corresponds cb) := by
  intro h
  have hbuilt : overloads.Built :=
    .functionRanges _ _ (.functionRanges _ _ (.function _ _ (.function _ _
      (.function _ _ (.function _ _ (.object _ _ (.object _ _
        (.table (.table .empty)))))))))
  have hfirst : overloads.contents? ⟨0, 0⟩ =
      some ⟨⟨"/bin/a", 1⟩, [overload .empty, overload pair], [], []⟩ := by
    cbv
  have hsecond : overloads.contents? ⟨1, 0⟩ =
      some ⟨⟨"/bin/a", 1⟩, [overload pair, overload .empty], [], []⟩ := by
    cbv
  have hequivalent := (h _ _ _ _ _ hbuilt hfirst hsecond).mpr
    { file := by decide
      functions := ⟨_, .cons (Symbol.agrees_of_items _ (by decide))
        (.cons (Symbol.agrees_of_items _ (by decide)) .nil), .swap _ _ _⟩
      loops := ⟨[], .nil, .nil⟩
      statements := ⟨[], .nil, .nil⟩ }
  rw [equivalent_of_contents hfirst hsecond,
    ObjectContents.equivalent_iff_inStep (by decide)] at hequivalent
  have hstep : List.Forall₂ (fun t u => t.ranges.same u.ranges = true)
      [overload .empty, overload pair] [overload pair, overload .empty] :=
    hequivalent.functions (overload .empty) List.mem_cons_self
  have hsame := (AddressSet.same_iff _ _).mp (List.forall₂_cons.mp hstep).1 8
  have hpair : pair.contains 8 = true := by
    cbv
  exact Bool.false_ne_true (hsame.trans hpair)

end SymbolStore
end CudaProfile
