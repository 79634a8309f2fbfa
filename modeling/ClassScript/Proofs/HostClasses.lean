import ClassScript.Proofs.Exploration
import ClassScript.Proofs.Initialization
import Mathlib.Data.List.Dedup

/-!
What an extension depends on.

The roots of an extension are defined and all other classes are left to the host. Yet a member that
the code of a root names is looked up from its owner upwards, wherever the owner belongs to: so the
output depends on the class files of these owners and of the classes above them, as far as the
resources have them. It depends on no other class file but the roots' own and the descriptions of
packages.
-/

namespace ClassScript

variable {r r' : Resources} {o : Options}

lemma Library.loadFrom_congr {name : String}
    (h : r.get (Name.resource name) = r'.get (Name.resource name)) :
    loadFrom r name = loadFrom r' name := by
  simp only [loadFrom, h]

lemma Library.view_of_loadFrom {α : Type} {see : ClassDecl → α} {name : String} {c : ClassDecl}
    (h : loadFrom r name = .ok (some c)) : (ofResources r).view see name = some (see c) :=
  view_eq_some h

namespace Program

/-- The classes whose files are consulted for the code of an extension: the owners of the members
that its roots name, and whatever these lead to. -/
inductive Consulted (r : Resources) (o : Options) : String → Prop
  | member {root c i m} : root ∈ o.roots → Library.loadFrom r root = .ok (some c) →
      c.pool.memberRef i = .ok m → Consulted r o m.owner
  | declared {name c} : Consulted r o name → Library.loadFrom r name = .ok (some c) →
      Consulted r o c.name
  | parent {name c p} : Consulted r o name → Library.loadFrom r name = .ok (some c) →
      p ∈ c.parents →
      Consulted r o p

/-- The resources have the same class files for the roots, the same descriptions of packages, and
the same scripts and data for the program. -/
structure SameSources (r r' : Resources) (o : Options) : Prop where
  roots : ∀ name ∈ o.roots, r.get (Name.resource name) = r'.get (Name.resource name)
  packages : ∀ package, r.get (Name.resource (Exports.infoName package)) =
    r'.get (Name.resource (Exports.infoName package))
  scripts : ∀ root ∈ o.roots, ∀ c, Library.loadFrom r root = .ok (some c) →
    ∀ x, c.script? = some x →
    r.get x = r'.get x
  data : ∀ name ∈ o.resources, r.get name = r'.get name

/-! ### Names that are consulted -/

namespace Consulted

variable {name : String}

lemma mem_spelled (h : Consulted r o name) : name ∈ r.spelled := by
  induction h with
  | member _ hload hm => exact owned_of_loadFrom hload _ _ hm
  | declared _ hload _ => exact (leads_of_loadFrom hload).1
  | parent _ hload hp _ => exact (leads_of_loadFrom hload).2 _ hp

lemma leads (h : Consulted r o name) {c : ClassDecl}
    (hload : Library.loadFrom r name = .ok (some c)) :
    c.Leads (Consulted r o) :=
  ⟨h.declared hload, fun _ hp => h.parent hload hp⟩

/-- The same classes are consulted in resources that have the same for them. -/
lemma transfer (hroots : ∀ name ∈ o.roots, r.get (Name.resource name) = r'.get (Name.resource name))
    (hsame : ∀ name, Consulted r o name → r.get (Name.resource name) = r'.get (Name.resource name))
    (h : Consulted r o name) : Consulted r' o name := by
  induction h with
  | member hroot hload hm =>
    rw [Library.loadFrom_congr (hroots _ hroot)] at hload
    exact .member hroot hload hm
  | declared hname hload ih =>
    rw [Library.loadFrom_congr (hsame _ hname)] at hload
    exact .declared ih hload
  | parent hname hload hp ih =>
    rw [Library.loadFrom_congr (hsame _ hname)] at hload
    exact .parent ih hload hp

open Classical in
/-- Both resources spell all the names, so there are no more of them than bytes in either. -/
lemma exists_names (htransfer : ∀ name, Consulted r o name → Consulted r' o name) :
    ∃ U : List String, (∀ name, Consulted r o name → name ∈ U) ∧ U.length ≤ r.size ∧
      U.length ≤ r'.size := by
  refine ⟨(r.spelled.filter fun name => decide (Consulted r o name)).dedup,
    fun name h => ?_, ?_, ?_⟩
  · simp [h.mem_spelled, h]
  · refine Nat.le_trans (List.Subperm.length_le (List.subperm_of_subset (List.nodup_dedup _) ?_))
      r.length_spelled
    exact fun name hname => (List.mem_filter.mp (List.mem_dedup.mp hname)).1
  · refine Nat.le_trans (List.Subperm.length_le (List.subperm_of_subset (List.nodup_dedup _) ?_))
      r'.length_spelled
    intro name hname
    exact (htransfer name
      (by simpa using (List.mem_filter.mp (List.mem_dedup.mp hname)).2)).mem_spelled

end Consulted

/-! ### Two runs -/

section

variable (hmode : o.mode = .extension) (hsame : SameSources r r' o)
  (hconsulted : ∀ name, Consulted r o name →
    r.get (Name.resource name) = r'.get (Name.resource name))

include hmode hsame hconsulted

lemma twins_of_sameSources :
    Twins (generator r o) (generator r' o) (Consulted r o) fun x => r.get x = r'.get x := by
  have hroot {name : String} (h : (generator r o).scope.isExternal name = false) :
      name ∈ o.roots := by
    by_contra hnot
    rw [isExternal_iff.mpr ⟨hmode, hnot⟩] at h
    cases h
  obtain ⟨U, hU, hsize, hsize'⟩ :=
    Consulted.exists_names fun _ hname => hname.transfer hsame.roots hconsulted
  exact {
    scope := rfl
    exports :=
      { library :=
          { load := fun name hname => Library.loadFrom_congr (hconsulted name hname)
            info := fun package => Library.loadFrom_congr (hsame.packages package)
            leads := fun _ _ hname hload => hname.leads hload
            levels := ⟨U, hU, Nat.lt_succ_of_le hsize, Nat.lt_succ_of_le hsize'⟩ }
        listed := rfl }
    load := fun name hname => Library.loadFrom_congr (hsame.roots name (hroot hname))
    owned := fun name c hname hload _ _ hm => .member (hroot hname) hload hm
    script := fun name c hname hload => hsame.scripts name (hroot hname) c hload }

/-- Discovery finds the same, and the scripts that it asks for are the same. -/
lemma discover_eq_of_sameSources :
    discover (generator r o) o (bound r o) (start o) = discover (generator r' o) o
      (bound r' o) (start o) ∧
      Gives (discover (generator r o) o (bound r o) (start o))
        fun s => ∀ x ∈ s.scripts, r.get x = r'.get x := by
  obtain ⟨names, hrun, -⟩ := start_explores r o
  obtain ⟨names', hrun', -⟩ := start_explores r' o
  obtain ⟨hother, hwithin⟩ :=
    (twins_of_sameSources hmode hsame hconsulted).explores (start_within _ _ o) hrun
  exact ⟨(hother.unique hrun').2, fun s hs => (hwithin hs).scripts⟩

end

lemma fetch_congr {name : String} (h : r.get name = r'.get name) :
    fetch r name = fetch r' name := by
  rw [fetch, fetch, h]

lemma mapM_congr {ε α β : Type} {k k' : α → Except ε β} {l : List α} (h : ∀ a ∈ l, k a = k' a) :
    l.mapM k = l.mapM k' := by
  induction l with
  | nil => rfl
  | cons a l ih =>
    rw [List.mapM_cons, List.mapM_cons, h a List.mem_cons_self,
      ih fun a' ha' => h a' (List.mem_cons_of_mem _ ha')]

/-- **An extension depends on no class file but its roots' and those consulted for them.** Resources
that have the same there, and the same package descriptions, scripts and data, give the same program
or the same error. -/
theorem extension_eq_of_consulted (hmode : o.mode = .extension) (hsame : SameSources r r' o)
    (hconsulted : ∀ name, Consulted r o name →
      r.get (Name.resource name) = r'.get (Name.resource name)) :
    build r o = build r' o := by
  obtain ⟨heq, hscripts⟩ := discover_eq_of_sameSources hmode hsame hconsulted
  change (discover (generator r o) o (bound r o) (start o) >>= fun s => _) =
    (discover (generator r' o) o (bound r' o) (start o) >>= fun s => _)
  rw [← heq]
  cases hrun : discover (generator r o) o (bound r o) (start o) with
  | error e => rfl
  | ok s =>
    have hfetched : (s.scripts.mapM fun name => return scriptLines (← fetch r name)) =
        s.scripts.mapM fun name => return scriptLines (← fetch r' name) :=
      mapM_congr fun x hx => by rw [fetch_congr (hscripts hrun x hx)]
    have hdata : (o.resources.mapM fun name => return (name, ← fetch r name)) =
        o.resources.mapM fun name => return (name, ← fetch r' name) :=
      mapM_congr fun x hx => by rw [fetch_congr (hsame.data x hx)]
    simp only [bind, Except.bind] at hfetched hdata ⊢
    rw [hfetched, hdata]

/-! ### Roots with a host -/

/-- A root below `Z` that reads the static field `f` of `X`. -/
def reader : Bytes :=
  [0xca, 0xfe, 0xba, 0xbe, 0, 0, 0, 52, 0, 14] ++
  sampleText "A" ++ [7, 0, 1] ++ sampleText "X" ++ [7, 0, 3] ++ sampleText "f" ++ sampleText "I" ++
  [12, 0, 5, 0, 6, 9, 0, 4, 0, 7] ++ sampleText "run" ++ sampleText "()I" ++ sampleText "Code" ++
  sampleText "Z" ++ [7, 0, 12] ++
  [0, 0, 0, 2, 0, 13, 0, 0, 0, 0, 0, 1, 0, 9, 0, 9, 0, 10, 0, 1, 0, 11, 0, 0, 0, 16, 0,
    1, 0, 0, 0, 0, 0, 4, 0xb2, 0, 8, 0xac, 0, 0, 0, 0, 0, 0]

def holder : Bytes :=
  [0xca, 0xfe, 0xba, 0xbe, 0, 0, 0, 52, 0, 5] ++
  sampleText "Y" ++ [7, 0, 1] ++ sampleText "f" ++ sampleText "I" ++
  [0, 0, 0, 2, 0, 0, 0, 0, 0, 1, 0, 9, 0, 3, 0, 4, 0, 0, 0, 0, 0, 0]

def plugin : Options := { roots := ["A"], fixed := [], mode := .extension }

/-- The root alone, with no file of the host. -/
def bare : Resources := ⟨[.stored [("A.class", reader)]]⟩

def damaged : Resources := ⟨[.stored [("A.class", reader), ("Z.class", [0])]]⟩

def hosted : Resources :=
  ⟨[.stored [("A.class", reader), ("X.class", sampleFile "X" (some "Y") none none),
    ("Y.class", holder)]]⟩

/-- The name of a package description is longer than those of the samples. -/
lemma length_relative_info (package : String) :
    18 ≤ (Resources.relative (Name.resource (Exports.infoName package))).length := by
  have hend : (Name.resource (Exports.infoName package)).toList =
      (if package.isEmpty then [] else package.toList ++ ['/']) ++ "package-info.class".toList := by
    rw [Exports.infoName, Name.resource]
    split <;> simp
  have hlength : "package-info.class".toList.length = 18 := by decide
  rw [Resources.relative, hend]
  generalize (if package.isEmpty then [] else package.toList ++ ['/']) = front
  rw [List.dropWhile_append]
  split
  · decide
  · rw [List.length_append]
    omega

lemma get_info_eq_none {entries : List (String × Bytes)} (h : ∀ e ∈ entries, e.1.length < 18)
    (package : String) :
    Resources.get ⟨[.stored entries]⟩ (Name.resource (Exports.infoName package)) = .ok none := by
  have hnone : entries.reverse.lookup
      (String.ofList (Resources.relative (Name.resource (Exports.infoName package)))) = none := by
    refine List.lookup_eq_none_iff.mpr fun e he => bne_iff_ne.mpr fun heq => ?_
    have hlt := h e (List.mem_reverse.mp he)
    rw [← heq, String.length_ofList] at hlt
    have hle := length_relative_info package
    omega
  rw [Resources.get, Resources.find, Source.get, hnone]
  rfl

/-- What the root has is the same in all samples, and they have no description of a package. -/
lemma sameSources_plugin {entries : List (String × Bytes)} (h : ∀ e ∈ entries, e.1.length < 18)
    (hroot : Resources.get ⟨[.stored entries]⟩ "A.class" = .ok (some reader)) :
    SameSources bare ⟨[.stored entries]⟩ plugin where
  roots name hname := by
    rw [List.mem_singleton.mp hname]
    exact hroot.symm
  packages package := by
    rw [get_info_eq_none h, bare, get_info_eq_none (by decide)]
  scripts root hroot c hload x hx := by
    have hnone : (Library.ofResources bare).view ClassDecl.script? "A" = some none := by
      decide +kernel
    rw [List.mem_singleton.mp hroot] at hload
    rw [Library.view_of_loadFrom hload, hx] at hnone
    cases hnone
  data name hname := by cases hname

def owners (p : ConstantPool) : List String :=
  (List.range p.size).filterMap fun i => (p.memberRef (.ofNat i)).toOption.map MemberRef.owner

lemma mem_owners {p : ConstantPool} {i : UInt16} {m : MemberRef} (h : p.memberRef i = .ok m) :
    m.owner ∈ owners p := by
  have hlt : i.toNat < p.size := by
    by_contra hge
    have hget : p.get i = .error (.outOfRange i) := by
      rw [ConstantPool.get, Array.getElem?_eq_none (Nat.le_of_not_lt hge)]
    rw [ConstantPool.memberRef, hget] at h
    cases h
  refine List.mem_filterMap.mpr ⟨i.toNat, List.mem_range.mpr hlt, ?_⟩
  rw [UInt16.ofNat_toNat, h]
  rfl

lemma eq_of_consulted_bare {name : String} (h : Consulted bare plugin name) : name = "X" := by
  have hmissing {c : ClassDecl} (hload : Library.loadFrom bare "X" = .ok (some c)) : False := by
    have hnone : (Library.ofResources bare).view ClassDecl.name "X" = none := by decide +kernel
    rw [Library.view_of_loadFrom hload] at hnone
    cases hnone
  induction h with
  | member hroot hload hm =>
    have howners : (Library.ofResources bare).view (fun c => owners c.pool) "A" = some ["X"] := by
      decide +kernel
    rw [List.mem_singleton.mp hroot] at hload
    rw [Library.view_of_loadFrom hload] at howners
    exact List.mem_singleton.mp (Option.some.inj howners ▸ mem_owners hm)
  | declared _ hload ih => exact (hmissing (ih ▸ hload)).elim
  | parent _ hload _ ih => exact (hmissing (ih ▸ hload)).elim

theorem extension_eq_of_consulted_damaged :
    SameSources bare damaged plugin ∧
    (∀ name, Consulted bare plugin name →
      bare.get (Name.resource name) = damaged.get (Name.resource name)) ∧
    bare.get "Z.class" ≠ damaged.get "Z.class" ∧
    (build bare plugin).map external = .ok ["Z", "X", "java/lang/Class"] ∧
    build bare plugin = build damaged plugin := by
  have hconsulted : ∀ name, Consulted bare plugin name →
      bare.get (Name.resource name) = damaged.get (Name.resource name) := by
    intro name hname
    rw [eq_of_consulted_bare hname]
    decide +kernel
  have hsame : SameSources bare damaged plugin := sameSources_plugin (by decide) (by decide +kernel)
  exact ⟨hsame, hconsulted, by decide +kernel, by decide +kernel,
    extension_eq_of_consulted rfl hsame hconsulted⟩

/-- **A file of the host changes an extension**, though the resources agree on all else: the owner
of the field is another class, which is linked as well. -/
theorem hosted_extension_differs :
    ¬ ∀ (r r' : Resources) (o : Options), o.mode = .extension → SameSources r r' o →
      build r o = build r' o := by
  intro hall
  have hsame : SameSources bare hosted plugin := sameSources_plugin (by decide) (by decide +kernel)
  have heq := congrArg (Except.map external) (hall bare hosted plugin rfl hsame)
  have hbare : (build bare plugin).map external = .ok ["Z", "X", "java/lang/Class"] := by
    decide +kernel
  have hhosted : (build hosted plugin).map external = .ok ["Z", "X", "Y", "java/lang/Class"] := by
    decide +kernel
  rw [hbare, hhosted] at heq
  exact absurd heq (by decide)

end Program

end ClassScript
