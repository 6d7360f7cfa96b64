import Mathlib.Data.List.Nodup
import Mathlib.Logic.Function.Basic

/-!
# Loops over items

A loop goes through a list of items, one after the other, and puts out one output for each. For its item
a turn may ask somebody else to do a job. Any number of such loops go on side by side. What holds of
the places where turns wait, of jobs and of outputs is given by `Facts`; `Sound` says that it does hold,
and there is one lemma for each thing that a loop can do.
-/

namespace PerItem

variable {I P O K : Type}

structure PairedOutput (O : Type) where
  json : O
  pairedItem : ℕ

/-- `index` is the loop variable, and `pc` where the turn of its item stands. -/
structure ItemLoop (I P O : Type) where
  continueOnFail : Bool
  items : List I
  index : ℕ
  returnData : List (PairedOutput O)
  thrown : Option String
  pc : Option P

namespace ItemLoop

def absent : ItemLoop I P O := ⟨false, [], 0, [], none, none⟩

def begin (continueOnFail : Bool) (items : List I) (first : P) : ItemLoop I P O :=
  ⟨continueOnFail, items, 0, [], none, if items.isEmpty then none else some first⟩

/-- The turn ends with an output. -/
def next (l : ItemLoop I P O) (first : P) (output : O) : ItemLoop I P O :=
  { l with
    index := l.index + 1
    returnData := l.returnData ++ [⟨output, l.index⟩]
    pc := if l.index + 1 < l.items.length then some first else none }

def throw (l : ItemLoop I P O) (message : String) : ItemLoop I P O :=
  { l with thrown := some message, pc := none }

def goto (l : ItemLoop I P O) (p : P) : ItemLoop I P O := { l with pc := some p }

/-- Outputs are those of the items so far, in their order. -/
structure Paired (l : ItemLoop I P O) : Prop where
  length : l.returnData.length = l.index
  paired : ∀ i (d : PairedOutput O), l.returnData[i]? = some d → d.pairedItem = i
  within : l.index ≤ l.items.length
  running : l.pc ≠ none → l.index < l.items.length
  complete : l.pc = none → l.thrown = none → l.index = l.items.length
  thrown : l.thrown ≠ none → l.pc = none ∧ l.continueOnFail = false

variable {l : ItemLoop I P O}

theorem paired_absent : (absent : ItemLoop I P O).Paired where
  length := rfl
  paired i d hd := by simp [absent] at hd
  within := Nat.le_refl _
  running h := absurd rfl h
  complete _ _ := rfl
  thrown h := absurd rfl h

theorem paired_begin (continueOnFail : Bool) (items : List I) (first : P) :
    (begin continueOnFail items first : ItemLoop I P O).Paired := by
  cases items with
  | nil =>
    refine ⟨rfl, ?_, Nat.le_refl _, fun h => absurd rfl h, fun _ _ => rfl, fun h => absurd rfl h⟩
    intro i d hd
    simp [begin] at hd
  | cons item rest =>
    refine ⟨rfl, ?_, Nat.zero_le _, fun _ => Nat.zero_lt_succ _, by simp [begin], fun h => absurd rfl h⟩
    intro i d hd
    simp [begin] at hd

theorem begin_pc {continueOnFail : Bool} {items : List I} {first p : P}
    (h : (begin continueOnFail items first : ItemLoop I P O).pc = some p) :
    p = first ∧ ∃ item, items[0]? = some item := by
  cases items with
  | nil => contradiction
  | cons item rest =>
    cases h
    exact ⟨rfl, item, rfl⟩

theorem returned_snoc {outputs : List (PairedOutput O)} {d e : PairedOutput O} {i : ℕ}
    (h : (outputs ++ [e])[i]? = some d) : outputs[i]? = some d ∨ i = outputs.length ∧ d = e := by
  by_cases hlt : i < outputs.length
  · rw [List.getElem?_append_left hlt] at h
    exact .inl h
  · rw [List.getElem?_append_right (by omega)] at h
    have hzero := (List.getElem?_eq_some_iff.mp h).1
    rw [List.length_singleton] at hzero
    have hi : i = outputs.length := by omega
    rw [hi, Nat.sub_self, List.getElem?_cons_zero, Option.some.injEq] at h
    exact .inr ⟨hi, h.symm⟩

theorem Paired.running_of (h : l.Paired) {p : P} (hpc : l.pc = some p) : l.index < l.items.length :=
  h.running (by simp [hpc])

theorem Paired.unthrown (h : l.Paired) {p : P} (hpc : l.pc = some p) : l.thrown = none := by
  by_contra hne
  rw [(h.thrown hne).1] at hpc
  contradiction

theorem Paired.next (h : l.Paired) {p : P} (hpc : l.pc = some p) (first : P) (output : O) :
    (l.next first output).Paired := by
  have hlt := h.running_of hpc
  constructor
  · simp [ItemLoop.next, h.length]
  · intro i d hd
    rcases returned_snoc hd with hold | ⟨rfl, rfl⟩
    · exact h.paired i d hold
    · exact h.length.symm
  · exact hlt
  · intro hne
    by_contra hge
    exact hne (if_neg hge)
  · intro hended _
    change l.index + 1 = l.items.length
    by_contra hne
    have hmore : l.index + 1 < l.items.length := by omega
    simp [ItemLoop.next, hmore] at hended
  · intro hne
    exact absurd (h.unthrown hpc) hne

theorem Paired.throw (h : l.Paired) (hstop : l.continueOnFail = false) (message : String) :
    (l.throw message).Paired where
  length := h.length
  paired := h.paired
  within := h.within
  running hne := absurd rfl hne
  complete _ hnone := by contradiction
  thrown _ := ⟨rfl, hstop⟩

theorem Paired.goto (h : l.Paired) {p : P} (hpc : l.pc = some p) (q : P) : (l.goto q).Paired where
  length := h.length
  paired := h.paired
  within := h.within
  running _ := h.running_of hpc
  complete hnone := by contradiction
  thrown hne := absurd (h.unthrown hpc) hne

end ItemLoop

/-- What the turn of an item has asked for. -/
structure Job (K : Type) where
  run : ℕ
  item : ℕ
  job : K

def Job.place (m : Job K) : ℕ × ℕ := (m.run, m.item)

structure ItemLoops (I P O K : Type) where
  runs : ℕ → ItemLoop I P O
  nextRun : ℕ
  made : List (Job K)

namespace ItemLoops

def initial : ItemLoops I P O K := ⟨fun _ => .absent, 0, []⟩

def set (s : ItemLoops I P O K) (x : ℕ) (l : ItemLoop I P O) : ItemLoops I P O K :=
  { s with runs := Function.update s.runs x l }

def execute (s : ItemLoops I P O K) (continueOnFail : Bool) (items : List I) (first : P) :
    ItemLoops I P O K :=
  { s.set s.nextRun (.begin continueOnFail items first) with nextRun := s.nextRun + 1 }

def next (s : ItemLoops I P O K) (x : ℕ) (first : P) (output : O) : ItemLoops I P O K :=
  s.set x ((s.runs x).next first output)

/-- The turn throws. What is put out when the loop goes on is up to the program. -/
def fail (s : ItemLoops I P O K) (x : ℕ) (first : P) (output : O) (message : String) :
    ItemLoops I P O K :=
  if (s.runs x).continueOnFail = true then s.next x first output
  else s.set x ((s.runs x).throw message)

def goto (s : ItemLoops I P O K) (x : ℕ) (p : P) : ItemLoops I P O K := s.set x ((s.runs x).goto p)

/-- The turn asks for a job and awaits it. -/
def ask (s : ItemLoops I P O K) (x : ℕ) (p : P) (k : K) : ItemLoops I P O K :=
  { s.goto x p with made := s.made ++ [⟨x, (s.runs x).index, k⟩] }

/-- `point`: of a turn at `p`, in this run and at this index. `settled`: of a job once the turn that has asked
for it is over. -/
structure Facts (I P O K : Type) where
  point : ℕ → ℕ → I → P → Prop
  job : Job K → I → Prop
  settled : Job K → Prop
  output : ℕ → ℕ → I → O → Prop

/-- The item at `i` of a run is so. -/
def At (s : ItemLoops I P O K) (x i : ℕ) (Q : I → Prop) : Prop :=
  ∃ item, (s.runs x).items[i]? = some item ∧ Q item

def Unasked (s : ItemLoops I P O K) (x i : ℕ) : Prop := ∀ m ∈ s.made, m.place ≠ (x, i)

/-- In each turn there is one job or none; at the points that are `asked`, it has been asked for. -/
structure Sound (asked : P → Bool) (F : Facts I P O K) (s : ItemLoops I P O K) : Prop where
  unborn : ∀ x, s.nextRun ≤ x → s.runs x = .absent
  paired : ∀ x, (s.runs x).Paired
  points : ∀ x p, (s.runs x).pc = some p → s.At x (s.runs x).index (F.point x (s.runs x).index · p)
  born : ∀ m ∈ s.made, m.run < s.nextRun ∧ m.item ≤ (s.runs m.run).index
  current : ∀ m ∈ s.made, ∀ p, m.item = (s.runs m.run).index → (s.runs m.run).pc = some p →
    asked p = true
  jobs : ∀ m ∈ s.made, s.At m.run m.item (F.job m)
  settled : ∀ m ∈ s.made, m.item < (s.runs m.run).index ∨ (s.runs m.run).pc = none → F.settled m
  places : (s.made.map Job.place).Nodup
  outputs : ∀ x i d, (s.runs x).returnData[i]? = some d → s.At x i (F.output x i · d.json)

variable {s : ItemLoops I P O K} {asked : P → Bool} {F G : Facts I P O K}

theorem At.imp {x i : ℕ} {Q R : I → Prop} (h : s.At x i Q) (hqr : ∀ item, Q item → R item) :
    s.At x i R := by
  obtain ⟨item, hitem, hq⟩ := h
  exact ⟨item, hitem, hqr item hq⟩

theorem sound_initial : (initial : ItemLoops I P O K).Sound asked F where
  unborn _ _ := rfl
  paired _ := ItemLoop.paired_absent
  points x p hpc := by contradiction
  born m hm := by contradiction
  current m hm := by contradiction
  jobs m hm := by contradiction
  settled m hm := by contradiction
  places := List.nodup_nil
  outputs x i d hd := by simp [initial, ItemLoop.absent] at hd

theorem Sound.lt (h : s.Sound asked F) {x : ℕ} {p : P} (hpc : (s.runs x).pc = some p) :
    x < s.nextRun := by
  by_contra hge
  rw [h.unborn x (by omega)] at hpc
  contradiction

theorem Sound.output_lt (h : s.Sound asked F) {x i : ℕ} {d : PairedOutput O}
    (hd : (s.runs x).returnData[i]? = some d) : x < s.nextRun ∧ i < (s.runs x).index := by
  constructor
  · by_contra hge
    rw [h.unborn x (by omega)] at hd
    simp [ItemLoop.absent] at hd
  · rw [← (h.paired x).length]
    exact (List.getElem?_eq_some_iff.mp hd).1

/-- The turn has asked for no job yet. -/
theorem Sound.unasked (h : s.Sound asked F) {x : ℕ} {p : P} (hpc : (s.runs x).pc = some p)
    (hp : asked p = false) : s.Unasked x (s.runs x).index := by
  intro m hm hplace
  obtain ⟨rfl, hitem⟩ := Prod.mk.inj hplace
  rw [h.current m hm p hitem hpc] at hp
  contradiction

theorem Unasked.settled {x i : ℕ} {Q : Job K → Prop} (h : s.Unasked x i) :
    ∀ m ∈ s.made, m.place = (x, i) → Q m := fun m hm hplace => absurd hplace (h m hm)

/-- A turn asks for its own item only. -/
theorem Unasked.ask {x y i : ℕ} (h : s.Unasked y i) (hi : i < (s.runs y).index) (p : P) (k : K) :
    (s.ask x p k).Unasked y i := by
  intro m hm
  rcases List.mem_append.mp hm with hold | hnew
  · exact h m hold
  · rw [List.mem_singleton.mp hnew]
    intro heq
    obtain ⟨rfl, rfl⟩ := Prod.mk.inj heq
    exact Nat.lt_irrefl _ hi

/-- The one job of a turn. -/
theorem Sound.only (h : s.Sound asked F) {x i : ℕ} {k : K} (hk : ⟨x, i, k⟩ ∈ s.made) {m : Job K}
    (hm : m ∈ s.made) (hplace : m.place = (x, i)) : m = ⟨x, i, k⟩ :=
  List.inj_on_of_nodup_map h.places hm hk hplace

theorem Sound.imp (h : s.Sound asked F)
    (hpoint : ∀ x i item p, x < s.nextRun → F.point x i item p → G.point x i item p)
    (hjob : ∀ m ∈ s.made, ∀ item, F.job m item → G.job m item)
    (hsettled : ∀ m ∈ s.made, F.settled m → G.settled m)
    (houtput : ∀ x i item o, x < s.nextRun → i < (s.runs x).index → F.output x i item o →
      G.output x i item o) : s.Sound asked G where
  unborn := h.unborn
  paired := h.paired
  points x p hpc := (h.points x p hpc).imp fun item => hpoint x _ item p (h.lt hpc)
  born := h.born
  current := h.current
  jobs m hm := (h.jobs m hm).imp (hjob m hm)
  settled m hm hpast := hsettled m hm (h.settled m hm hpast)
  places := h.places
  outputs x i d hd := by
    obtain ⟨hx, hi⟩ := h.output_lt hd
    exact (h.outputs x i d hd).imp fun item => houtput x i item d.json hx hi

@[simp]
theorem set_self {x : ℕ} {l : ItemLoop I P O} : (s.set x l).runs x = l := Function.update_self ..

theorem set_other {x y : ℕ} {l : ItemLoop I P O} (hy : y ≠ x) : (s.set x l).runs y = s.runs y :=
  Function.update_of_ne hy _ _

theorem fail_made {x : ℕ} {first : P} {output : O} {message : String} :
    (s.fail x first output message).made = s.made := by
  unfold fail
  split <;> rfl

theorem fail_nextRun {x : ℕ} {first : P} {output : O} {message : String} :
    (s.fail x first output message).nextRun = s.nextRun := by
  unfold fail
  split <;> rfl

/-- One run goes on. -/
theorem Sound.set (h : s.Sound asked F) {x : ℕ} {l : ItemLoop I P O} (hx : x < s.nextRun)
    (hitems : l.items = (s.runs x).items) (hpaired : l.Paired) (hindex : (s.runs x).index ≤ l.index)
    (hpoint : ∀ p, l.pc = some p →
      ∃ item, l.items[l.index]? = some item ∧ F.point x l.index item p)
    (hcurrent : ∀ m ∈ s.made, ∀ p, m.place = (x, l.index) → l.pc = some p → asked p = true)
    (hsettled : ∀ m ∈ s.made, m.run = x → m.item < l.index ∨ l.pc = none → F.settled m)
    (houtput : ∀ i d, l.returnData[i]? = some d → (s.runs x).returnData[i]? = some d ∨
      ∃ item, l.items[i]? = some item ∧ F.output x i item d.json) : (s.set x l).Sound asked F := by
  have hat : ∀ {y i : ℕ} {Q : I → Prop}, s.At y i Q → (s.set x l).At y i Q := by
    rintro y i Q ⟨item, hitem, hq⟩
    refine ⟨item, ?_, hq⟩
    by_cases hy : y = x
    · subst hy
      rw [set_self, hitems]
      exact hitem
    · rw [set_other hy]
      exact hitem
  constructor
  · intro y hy
    have hne : y ≠ x := by
      rintro rfl
      exact absurd hx (Nat.not_lt.mpr hy)
    rw [set_other hne]
    exact h.unborn y hy
  · intro y
    by_cases hy : y = x
    · rw [hy, set_self]
      exact hpaired
    · rw [set_other hy]
      exact h.paired y
  · intro y p hpc
    by_cases hy : y = x
    · subst hy
      rw [set_self] at hpc ⊢
      obtain ⟨item, hitem, hp⟩ := hpoint p hpc
      refine ⟨item, ?_, hp⟩
      rw [set_self]
      exact hitem
    · rw [set_other hy] at hpc ⊢
      exact hat (h.points y p hpc)
  · intro m hm
    obtain ⟨hborn, hle⟩ := h.born m hm
    refine ⟨hborn, ?_⟩
    by_cases hm' : m.run = x
    · rw [hm'] at hle ⊢
      rw [set_self]
      exact Nat.le_trans hle hindex
    · rw [set_other hm']
      exact hle
  · intro m hm p hitem hpc
    by_cases hm' : m.run = x
    · rw [hm', set_self] at hitem hpc
      exact hcurrent m hm p (Prod.ext hm' hitem) hpc
    · rw [set_other hm'] at hitem hpc
      exact h.current m hm p hitem hpc
  · exact fun m hm => hat (h.jobs m hm)
  · intro m hm hpast
    by_cases hm' : m.run = x
    · rw [hm', set_self] at hpast
      exact hsettled m hm hm' hpast
    · rw [set_other hm'] at hpast
      exact h.settled m hm hpast
  · exact h.places
  · intro y i d hd
    by_cases hy : y = x
    · subst hy
      rw [set_self] at hd
      rcases houtput i d hd with hold | ⟨item, hitem, ho⟩
      · exact hat (h.outputs y i d hold)
      · refine ⟨item, ?_, ho⟩
        rw [set_self]
        exact hitem
    · rw [set_other hy] at hd
      exact hat (h.outputs y i d hd)

/-- A job of this run belongs to a turn that is over, or to the one under way. -/
theorem Sound.past (h : s.Sound asked F) {x : ℕ} (hlast : ∀ m ∈ s.made, m.place = (x, (s.runs x).index) →
    F.settled m) {m : Job K} (hm : m ∈ s.made) (hrun : m.run = x) : F.settled m := by
  obtain ⟨-, hle⟩ := h.born m hm
  rw [hrun] at hle
  rcases Nat.lt_or_eq_of_le hle with hlt | heq
  · exact h.settled m hm (.inl (hrun.symm ▸ hlt))
  · exact hlast m hm (Prod.ext hrun heq)

theorem Sound.next (h : s.Sound asked F) {x : ℕ} {p : P} {output : O}
    (hpc : (s.runs x).pc = some p) (first : P) (hfirst : ∀ i item, F.point x i item first)
    (hsettled : ∀ m ∈ s.made, m.place = (x, (s.runs x).index) → F.settled m)
    (houtput : s.At x (s.runs x).index (F.output x (s.runs x).index · output)) :
    (s.next x first output).Sound asked F := by
  refine h.set (h.lt hpc) rfl ((h.paired x).next hpc first output) (Nat.le_succ _) ?_ ?_ ?_ ?_
  · intro q hq
    by_cases hmore : (s.runs x).index + 1 < (s.runs x).items.length
    · refine ⟨_, List.getElem?_eq_getElem hmore, ?_⟩
      simp only [ItemLoop.next, if_pos hmore, Option.some.injEq] at hq
      exact hq ▸ hfirst _ _
    · simp [ItemLoop.next, hmore] at hq
  · intro m hm q hplace _
    obtain ⟨hrun, hitem⟩ := Prod.mk.inj hplace
    have hle := (h.born m hm).2
    rw [hrun, hitem] at hle
    exact absurd hle (Nat.not_succ_le_self _)
  · exact fun m hm hrun _ => h.past hsettled hm hrun
  · intro i d hd
    rcases ItemLoop.returned_snoc hd with hold | ⟨rfl, rfl⟩
    · exact .inl hold
    · right
      rw [(h.paired x).length]
      exact houtput

theorem Sound.fail (h : s.Sound asked F) {x : ℕ} {p : P} {output : O}
    (hpc : (s.runs x).pc = some p) (message : String) (first : P) (hfirst : ∀ i item, F.point x i item first)
    (hsettled : ∀ m ∈ s.made, m.place = (x, (s.runs x).index) → F.settled m)
    (houtput : s.At x (s.runs x).index (F.output x (s.runs x).index · output)) :
    (s.fail x first output message).Sound asked F := by
  unfold ItemLoops.fail
  split
  next hcontinue => exact h.next hpc first hfirst hsettled houtput
  next hstop =>
    refine h.set (h.lt hpc) rfl ((h.paired x).throw (Bool.eq_false_iff.mpr hstop) message)
      (Nat.le_refl _) ?_ ?_ ?_ fun i d hd => .inl hd
    · intro q hq
      contradiction
    · intro m hm q _ hq
      contradiction
    · exact fun m hm hrun _ => h.past hsettled hm hrun

theorem Sound.goto (h : s.Sound asked F) {x : ℕ} {p : P} (hpc : (s.runs x).pc = some p) (q : P)
    (hasked : asked p = true → asked q = true)
    (hpoint : s.At x (s.runs x).index (F.point x (s.runs x).index · q)) :
    (s.goto x q).Sound asked F := by
  refine h.set (h.lt hpc) rfl ((h.paired x).goto hpc q) (Nat.le_refl _) ?_ ?_ ?_ fun i d hd => .inl hd
  · intro q' hq
    cases hq
    exact hpoint
  · intro m hm q' hplace hq
    cases hq
    obtain ⟨rfl, hitem⟩ := Prod.mk.inj hplace
    exact hasked (h.current m hm p hitem hpc)
  · rintro m hm rfl (hlt | hnone)
    · exact h.settled m hm (.inl hlt)
    · contradiction

theorem Sound.ask (h : s.Sound asked F) {x : ℕ} {p q : P} {k : K} (hpc : (s.runs x).pc = some p)
    (hp : asked p = false) (hq : asked q = true)
    (hpoint : s.At x (s.runs x).index (F.point x (s.runs x).index · q))
    (hjob : s.At x (s.runs x).index (F.job ⟨x, (s.runs x).index, k⟩)) :
    (s.ask x q k).Sound asked F := by
  have hgoto := h.goto hpc q (fun _ => hq) hpoint
  have hself : (s.goto x q).runs x = (s.runs x).goto q := set_self
  have hindex : ((s.goto x q).runs x).index = (s.runs x).index := by rw [hself]; rfl
  have hitems : ((s.goto x q).runs x).items = (s.runs x).items := by rw [hself]; rfl
  constructor
  · exact hgoto.unborn
  · exact hgoto.paired
  · exact hgoto.points
  · intro m hm
    rcases List.mem_append.mp hm with hold | hnew
    · exact hgoto.born m hold
    · rw [List.mem_singleton.mp hnew]
      exact ⟨h.lt hpc, Nat.le_of_eq hindex.symm⟩
  · intro m hm q' hitem hq'
    rcases List.mem_append.mp hm with hold | hnew
    · exact hgoto.current m hold q' hitem hq'
    · rw [List.mem_singleton.mp hnew] at hq'
      change ((s.goto x q).runs x).pc = some q' at hq'
      rw [hself] at hq'
      cases hq'
      exact hq
  · intro m hm
    rcases List.mem_append.mp hm with hold | hnew
    · exact hgoto.jobs m hold
    · rw [List.mem_singleton.mp hnew]
      obtain ⟨item, hitem, hj⟩ := hjob
      exact ⟨item, hitems.symm ▸ hitem, hj⟩
  · intro m hm hpast
    rcases List.mem_append.mp hm with hold | hnew
    · exact hgoto.settled m hold hpast
    · rw [List.mem_singleton.mp hnew] at hpast
      change (s.runs x).index < ((s.goto x q).runs x).index ∨ ((s.goto x q).runs x).pc = none at hpast
      rw [hself] at hpast
      rcases hpast with hlt | hnone
      · exact absurd hlt (Nat.lt_irrefl _)
      · contradiction
  · change (List.map Job.place (s.made ++ [_])).Nodup
    rw [List.map_append]
    refine h.places.append (List.nodup_singleton _) ?_
    intro place hold hnew
    obtain ⟨m, hm, rfl⟩ := List.mem_map.mp hold
    exact h.unasked hpc hp m hm (List.mem_singleton.mp hnew)
  · exact hgoto.outputs

theorem Sound.execute (h : s.Sound asked F) (continueOnFail : Bool) (items : List I) (first : P)
    (hfirst : ∀ i item, F.point s.nextRun i item first) :
    (s.execute continueOnFail items first).Sound asked F := by
  have hself : (s.execute continueOnFail items first).runs s.nextRun =
      .begin continueOnFail items first := Function.update_self ..
  have hother : ∀ y, y ≠ s.nextRun → (s.execute continueOnFail items first).runs y = s.runs y :=
    fun y hy => Function.update_of_ne hy _ _
  have hat : ∀ {y i : ℕ} {Q : I → Prop}, y < s.nextRun → s.At y i Q →
      (s.execute continueOnFail items first).At y i Q := by
    rintro y i Q hy ⟨item, hitem, hq⟩
    exact ⟨item, (hother y (Nat.ne_of_lt hy)).symm ▸ hitem, hq⟩
  have hold : ∀ m ∈ s.made, (s.execute continueOnFail items first).runs m.run = s.runs m.run :=
    fun m hm => hother _ (Nat.ne_of_lt (h.born m hm).1)
  constructor
  · intro y hy
    have hlt : s.nextRun < y := hy
    rw [hother y (Nat.ne_of_gt hlt)]
    exact h.unborn y (Nat.le_of_lt hlt)
  · intro y
    by_cases hy : y = s.nextRun
    · rw [hy, hself]
      exact ItemLoop.paired_begin continueOnFail items first
    · rw [hother y hy]
      exact h.paired y
  · intro y p hpc
    by_cases hy : y = s.nextRun
    · subst hy
      rw [hself] at hpc
      obtain ⟨rfl, item, hitem⟩ := ItemLoop.begin_pc hpc
      refine ⟨item, ?_, hfirst _ _⟩
      rw [hself]
      exact hitem
    · rw [hother y hy] at hpc ⊢
      exact hat (h.lt hpc) (h.points y p hpc)
  · intro m hm
    obtain ⟨hborn, hle⟩ := h.born m hm
    exact ⟨Nat.lt_succ_of_lt hborn, (hold m hm).symm ▸ hle⟩
  · intro m hm p
    rw [hold m hm]
    exact h.current m hm p
  · exact fun m hm => hat (h.born m hm).1 (h.jobs m hm)
  · intro m hm
    rw [hold m hm]
    exact h.settled m hm
  · exact h.places
  · intro y i d hd
    by_cases hy : y = s.nextRun
    · rw [hy, hself] at hd
      simp [ItemLoop.begin] at hd
    · rw [hother y hy] at hd
      exact hat (h.output_lt hd).1 (h.outputs y i d hd)

end ItemLoops

end PerItem
