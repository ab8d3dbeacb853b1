import DailyScheduler.Lib.Run
import DailyScheduler.Model.Effects
import DailyScheduler.Records.Store
import Mathlib.Data.Finset.Card
import Mathlib.Data.Finset.Filter

set_option autoImplicit false

/-! # The index sets

Beside the records the broker keeps the set of all names, and for each parent the set of the names of
its children. `save` adds the name to both; `delete` takes the key of the record out of both, which
is no name, and `0` out of the children. So a name stays in the sets when its record is deleted.

Records and sets are values of one store (`Keyspace`). Where the key of no record is that of a set, they
are as good as kept apart (`Sets`), and there the invariant is proved.
-/

namespace DailyScheduler.Index

open AtomicProg Keyspace

/-- `save` or `delete` of an object; an object that cannot be encoded is not saved. -/
inductive Op where
  | save (j : JobModel) (saveAll : Bool) (encodes : j.serializable = true)
  | delete (j : JobModel)
  | expire (j : JobModel)

namespace Op

/-- The job of the operation. -/
def name : Op → JobName
  | .save j _ _ => j.name
  | .delete j => j.name
  | .expire j => j.name

/-- Whether the operation is a save. -/
def isSave : Op → Bool
  | .save _ _ _ => true
  | .delete _ => false
  | .expire _ => false

end Op

/-! ## The store -/

/-- The records, the set of all names and the sets of children. -/
inductive Item where
  | record (n : JobName)
  | index
  | children (p : String)
  deriving DecidableEq

namespace Item

/-- `_element_key_template`, `_list_key` and `_children_key_template`. -/
def key : Item → String
  | .record n => World.jobKey n
  | .index => ":jobs:ALL:"
  | .children p => ":" ++ p ++ ":jobs:"

def type : Item → Store.ValueType
  | .record _ => .jobHash
  | .index => .names
  | .children _ => .names

end Item

def layout : Layout String Item Store.ValueType := ⟨Item.key, Item.type⟩

/-- The broker. -/
abbrev Broker := Space String Store.ValueType.Value

abbrev Request := Keyspace.Request layout Store.ValueType.Value

/-- `SREM`. A set without members is no key. -/
def srem (l : Finset String) : Store.Command .names := .modify fun names =>
  if names.getD ∅ \ l = ∅ then none else some (names.getD ∅ \ l)

/-- `SMEMBERS`, which fails on a key that holds something else. -/
def smembers (s : Broker) (key : String) : Option (Finset String) :=
  match ((Command.modify id : Store.Command .names).execute (s key)).1 with
  | .value names => some (names.getD ∅)
  | .wrongType => none
  | .found _ => none

variable (parent : JobName → Option String)

/-- A pipeline with a request for the set of all names, one for the set of the parent's children, if the
job has a parent, and one for the record. -/
def pipeline (n : JobName) (onIndex onChildren : Store.Command .names)
    (onRecord : Store.Command .jobHash) : List Request :=
  match parent n with
  | none => [⟨.index, onIndex⟩, ⟨.record n, onRecord⟩]
  | some p => [⟨.index, onIndex⟩, ⟨.children p, onChildren⟩, ⟨.record n, onRecord⟩]

/-- The pipelines of `save` and `delete`. -/
def requests : Op → List Request
  | .save j saveAll _ =>
      pipeline parent j.name (Store.sadd j.name) (Store.sadd j.name) (Store.hsetJob j saveAll)
  | .delete j | .expire j =>
      pipeline parent j.name (srem {World.jobKey j.name}) (srem {"0", World.jobKey j.name}) .delete

def step (s : Broker) (o : Op) : Broker := Layout.after s (requests parent o)

/-- `all_names`. -/
def allNames (s : Broker) : Option String → Option (Finset String)
  | none => smembers s Item.index.key
  | some p => if p = "" then smembers s Item.index.key else smembers s (Item.children p).key

/-- `count`. -/
def count (s : Broker) : Option String → Option Nat
  | none => (smembers s Item.index.key).map Finset.card
  | some p => (smembers s (Item.children p).key).map Finset.card

/-- The broker before the first operation. -/
def init : Broker := fun _ => none

/-! ## Names whose last operation was a save -/

def add (l : Finset JobName) (o : Op) : Finset JobName :=
  if o.isSave then insert o.name l else l.erase o.name

/-- The names after the operations, where `l` were the names before. -/
def names (l : Finset JobName) (ops : List Op) : Finset JobName := ops.foldl add l

theorem mem_add {l : Finset JobName} {o : Op} {n : JobName} :
    n ∈ add l o ↔ if o.name = n then o.isSave = true else n ∈ l := by
  unfold add
  split
  · rename_i hsave
    rw [Finset.mem_insert]
    split
    · rename_i heq
      exact iff_of_true (.inl heq.symm) hsave
    · rename_i hne
      exact or_iff_right fun heq => hne heq.symm
  · rename_i hsave
    rw [Finset.mem_erase]
    split
    · rename_i heq
      exact iff_of_false (fun h => h.1 heq.symm) hsave
    · rename_i hne
      exact and_iff_right fun heq => hne heq.symm

theorem mem_names_iff (ops : List Op) (n : JobName) : n ∈ names ∅ ops ↔
    ∃ a o b, ops = a ++ o :: b ∧ o.isSave = true ∧ o.name = n ∧ ∀ o' ∈ b, o'.name ≠ n := by
  induction ops using List.reverseRecOn with
  | nil =>
      constructor
      · intro h
        exact absurd h (Finset.notMem_empty n)
      · rintro ⟨a, o, b, h, -⟩
        simp at h
  | append_singleton ops o ih =>
      have hlast : names ∅ (ops ++ [o]) = add (names ∅ ops) o := by
        unfold names
        rw [List.foldl_append]
        rfl
      rw [hlast, mem_add]
      by_cases hn : o.name = n
      · rw [if_pos hn]
        constructor
        · intro hsave
          exact ⟨ops, o, [], rfl, hsave, hn, fun o' ho' => absurd ho' List.not_mem_nil⟩
        · rintro ⟨a, o', b, heq, hsave, -, hb⟩
          rcases List.eq_nil_or_concat b with rfl | ⟨b', x, rfl⟩
          · have ho := (List.append_inj' heq rfl).2
            rw [List.cons.inj ho |>.1]
            exact hsave
          · -- then the last operation is one of those after `o'`
            have hassoc : ops ++ [o] = (a ++ o' :: b') ++ [x] := by
              rw [heq]
              simp
            have hx : o = x := (List.cons.inj (List.append_inj' hassoc rfl).2).1
            exact absurd hn (hx ▸ hb x (by simp))
      · rw [if_neg hn, ih]
        constructor
        · rintro ⟨a, o', b, rfl, hsave, hname, hb⟩
          refine ⟨a, o', b ++ [o], by simp, hsave, hname, fun x hx => ?_⟩
          rcases List.mem_append.1 hx with hx | hx
          · exact hb x hx
          · rw [List.mem_singleton.1 hx]
            exact hn
        · rintro ⟨a, o', b, heq, hsave, hname, hb⟩
          rcases List.eq_nil_or_concat b with rfl | ⟨b', x, rfl⟩
          · have ho := (List.append_inj' heq rfl).2
            exact absurd ((List.cons.inj ho).1 ▸ hname) hn
          · have hops : ops = a ++ o' :: b' := by
              have hassoc : ops ++ [o] = (a ++ o' :: b') ++ [x] := by
                rw [heq]
                simp
              exact (List.append_inj' hassoc rfl).1
            exact ⟨a, o', b', hops, hsave, hname, fun y hy => hb y (by simp [hy])⟩

/-! ## The sets and the names -/

/-- The job's parent is `p`. -/
def IsChild (p : String) (n : JobName) : Prop := parent n = some p

instance (p : String) : DecidablePred (IsChild parent p) := fun n =>
  inferInstanceAs (Decidable (parent n = some p))

/-- `all_names` and `count` say which names there are, globally and for each parent of a job. -/
structure Matches (s : Broker) (l : Finset JobName) : Prop where
  all : allNames s none = some l ∧ count s none = some l.card
  children : ∀ p, (∃ n, IsChild parent p n) →
    allNames s (some p) = some (l.filter (IsChild parent p)) ∧
      count s (some p) = some (l.filter (IsChild parent p)).card

/-- The name is a member of the set. -/
def Lists (s : Broker) (i : Item) (n : String) : Prop := ∃ l, smembers s i.key = some l ∧ n ∈ l

/-- The operation keeps the sets as they should be. A deletion does when the name is not there any
more, nor its key as another name, nor the name `0` among the children of its parent; a save does
unless the empty string is the parent of some job but not of this one. -/
def Keeps (s : Broker) : Op → Prop
  | .save j _ _ => (∃ n, IsChild parent "" n) → IsChild parent "" j.name
  | .delete j | .expire j => ¬ Lists s .index j.name ∧ ¬ Lists s .index (World.jobKey j.name) ∧
      ∀ p, IsChild parent p j.name → ¬ Lists s (.children p) "0"

/-- The key of the record is not that of a set. -/
def Clear (n : JobName) : Prop :=
  World.jobKey n ≠ Item.index.key ∧
    ∀ p, (∃ m, IsChild parent p m) → World.jobKey n ≠ (Item.children p).key

/-! ## Records and sets apart -/

/-- The records and the names, with the sets of children. -/
structure Sets where
  world : World
  children : String → Finset String

/-- `sadd(self._parent_key, self.name)`. -/
def addChild (n : JobName) (children : String → Finset String) (p : String) : Finset String :=
  if IsChild parent p n then insert n (children p) else children p

/-- `srem(self._parent_key, 0, self._key)`. -/
def removeChild (n : JobName) (children : String → Finset String) (p : String) : Finset String :=
  if IsChild parent p n then children p \ {"0", World.jobKey n} else children p

/-- An operation in terms of `World`. -/
def Sets.step (t : Sets) : Op → Sets
  | .save j saveAll _ => ⟨(j.save saveAll).exec t.world, addChild parent j.name t.children⟩
  | .delete j => ⟨j.delete.exec t.world, removeChild parent j.name t.children⟩
  | .expire j => ⟨(j.expire 0).exec t.world, removeChild parent j.name t.children⟩

/-- The cell of a set. -/
def setCell (l : Finset String) : Cell Store.ValueType.Value .names :=
  if l = ∅ then none else some (l, none)

def cells (t : Sets) : Cells layout Store.ValueType.Value
  | .record n => t.world.jobs.entry n
  | .index => setCell t.world.jobNames
  | .children p => setCell (t.children p)

variable {parent} {s : Broker} {t : Sets} {l : Finset JobName} {o : Op}

theorem setCell_getD (l : Finset String) : ((setCell l).map Prod.fst).getD ∅ = l := by
  unfold setCell
  split
  · rename_i h
    exact h.symm
  · rfl

theorem setCell_bind (l : Finset String) : (setCell l).bind Prod.snd = none := by
  unfold setCell
  split <;> rfl

theorem apply_sadd (n : String) (l : Finset String) :
    ((Store.sadd n).apply (setCell l)).2 = setCell (insert n l) := by
  show (some (insert n (((setCell l).map Prod.fst).getD ∅))).map (fun v => (v, (setCell l).bind Prod.snd)) = _
  rw [setCell_getD, setCell_bind, setCell, if_neg (Finset.insert_ne_empty n l)]
  rfl

theorem apply_srem (d l : Finset String) : ((srem d).apply (setCell l)).2 = setCell (l \ d) := by
  show (if ((setCell l).map Prod.fst).getD ∅ \ d = ∅ then none
    else some (((setCell l).map Prod.fst).getD ∅ \ d)).map (fun v => (v, (setCell l).bind Prod.snd)) = _
  rw [setCell_getD, setCell_bind, setCell]
  split <;> rfl

/-- What a pipeline leaves of the cells. -/
structure Served (parent : JobName → Option String) (n : JobName)
    (onIndex onChildren : Store.Command .names) (onRecord : Store.Command .jobHash)
    (c c' : Cells layout Store.ValueType.Value) : Prop where
  record : c' (.record n) = (onRecord.apply (c (.record n))).2
  otherRecord : ∀ m, m ≠ n → c' (.record m) = c (.record m)
  index : c' .index = (onIndex.apply (c .index)).2
  children : ∀ p, IsChild parent p n → c' (.children p) = (onChildren.apply (c (.children p))).2
  otherChildren : ∀ p, ¬ IsChild parent p n → c' (.children p) = c (.children p)

theorem served (parent : JobName → Option String) (c : Cells layout Store.ValueType.Value)
    (n : JobName) (onIndex onChildren : Store.Command .names) (onRecord : Store.Command .jobHash) :
    Served parent n onIndex onChildren onRecord c
      (Layout.ownAfter c (pipeline parent n onIndex onChildren onRecord)) := by
  cases hn : parent n with
  | none =>
      have hp : pipeline parent n onIndex onChildren onRecord
          = [⟨.index, onIndex⟩, ⟨.record n, onRecord⟩] := by simp only [pipeline, hn]
      rw [hp]
      constructor
      · exact Layout.own_self ..
      · intro m hm
        refine (Layout.own_of_ne _ fun h => hm (Item.record.inj h)).trans ?_
        exact Layout.own_of_ne _ fun h => by cases h
      · refine (Layout.own_of_ne _ fun h => by cases h).trans ?_
        exact Layout.own_self ..
      · intro p hchild
        rw [IsChild, hn] at hchild
        cases hchild
      · intro p _
        refine (Layout.own_of_ne _ fun h => by cases h).trans ?_
        exact Layout.own_of_ne _ fun h => by cases h
  | some q =>
      have hp : pipeline parent n onIndex onChildren onRecord
          = [⟨.index, onIndex⟩, ⟨.children q, onChildren⟩, ⟨.record n, onRecord⟩] := by
        simp only [pipeline, hn]
      rw [hp]
      constructor
      · exact Layout.own_self ..
      · intro m hm
        refine (Layout.own_of_ne _ fun h => hm (Item.record.inj h)).trans ?_
        refine (Layout.own_of_ne _ fun h => by cases h).trans ?_
        exact Layout.own_of_ne _ fun h => by cases h
      · refine (Layout.own_of_ne _ fun h => by cases h).trans ?_
        refine (Layout.own_of_ne _ fun h => by cases h).trans ?_
        exact Layout.own_self ..
      · intro p hchild
        obtain rfl : q = p := Option.some.inj (hn.symm.trans hchild)
        refine (Layout.own_of_ne _ fun h => by cases h).trans ?_
        exact Layout.own_self ..
      · intro p hchild
        refine (Layout.own_of_ne _ fun h => by cases h).trans ?_
        refine (Layout.own_of_ne _ fun h => hchild ?_).trans ?_
        · rw [IsChild, hn, Item.children.inj h]
        · exact Layout.own_of_ne _ fun h => by cases h

/-- In the own cells the requests do what the operation does. -/
theorem ownAfter_requests (t : Sets) (o : Op) :
    Layout.ownAfter (cells t) (requests parent o) = cells (t.step parent o) := by
  have hdeleted : ∀ n : JobName, Layout.ownAfter (cells t)
      (pipeline parent n (srem {World.jobKey n}) (srem {"0", World.jobKey n}) .delete)
      = cells ⟨t.world.deleteJob n, removeChild parent n t.children⟩ := by
    intro n
    have hserved := served parent (cells t) n (srem {World.jobKey n})
      (srem {"0", World.jobKey n}) .delete
    funext i
    cases i with
    | record m =>
        by_cases hm : m = n
        · subst hm
          have hgone : (t.world.jobs.erase m).entry m = none := Function.update_self ..
          exact hserved.record.trans hgone.symm
        · exact (hserved.otherRecord m hm).trans (TtlMap.entry_erase_of_ne _ hm).symm
    | index =>
        refine hserved.index.trans ((apply_srem _ _).trans ?_)
        exact congrArg setCell (Finset.sdiff_singleton_eq_erase _ _)
    | children p =>
        by_cases hp : IsChild parent p n
        · refine (hserved.children p hp).trans ((apply_srem _ _).trans ?_)
          exact congrArg setCell (if_pos hp).symm
        · exact (hserved.otherChildren p hp).trans (congrArg setCell (if_neg hp).symm)
  cases o with
  | save j saveAll hj =>
      have hserved := served parent (cells t) j.name (Store.sadd j.name)
        (Store.sadd j.name) (Store.hsetJob j saveAll)
      have hstep : t.step parent (.save j saveAll hj)
          = ⟨t.world.saveJob j saveAll, addChild parent j.name t.children⟩ := by
        unfold Sets.step
        simp only [Prog.exec, JobModel.run_save hj]
      rw [hstep]
      funext i
      cases i with
      | record m =>
          by_cases hm : m = j.name
          · subst hm
            exact hserved.record.trans (Store.entry_saveJob_self ..).symm
          · exact (hserved.otherRecord m hm).trans (Store.entry_saveJob_of_ne _ _ _ hm).symm
      | index => exact hserved.index.trans (apply_sadd _ _)
      | children p =>
          by_cases hp : IsChild parent p j.name
          · refine (hserved.children p hp).trans ((apply_sadd _ _).trans ?_)
            exact congrArg setCell (if_pos hp).symm
          · exact (hserved.otherChildren p hp).trans (congrArg setCell (if_neg hp).symm)
  | delete j => exact hdeleted j.name
  | expire j => exact hdeleted j.name

/-- The records whose keys are clear, the index, and the sets of children. -/
def inUse (parent : JobName → Option String) : Set Item := fun
  | .record n => Clear parent n
  | .index => True
  | .children p => ∃ n, IsChild parent p n

theorem childrenKey_inj {p q : String} (h : (Item.children p).key = (Item.children q).key) : p = q := by
  have hlist := congrArg String.toList h
  simp only [Item.key, String.toList_append, List.append_cancel_right_eq,
    List.append_cancel_left_eq] at hlist
  exact String.toList_inj.1 hlist

theorem indexKey_ne (p : String) : Item.index.key ≠ (Item.children p).key := by
  intro h
  have hlast := congrArg (fun s => s.toList.reverse) h
  simp [Item.key] at hlast

/-- Only the key of a record can be that of a set. -/
theorem injOn_key : Set.InjOn Item.key (inUse parent) := by
  intro a ha b hb h
  cases a with
  | record n =>
      cases b with
      | record m => exact congrArg Item.record (Place.record_key_inj h)
      | index => exact absurd h ha.1
      | children p => exact absurd h (ha.2 p hb)
  | index =>
      cases b with
      | record m => exact absurd h.symm hb.1
      | index => rfl
      | children p => exact absurd h (indexKey_ne p)
  | children p =>
      cases b with
      | record m => exact absurd h.symm (hb.2 p ha)
      | index => exact absurd h.symm (indexKey_ne p)
      | children q => exact congrArg Item.children (childrenKey_inj h)

/-- A set that has its own key is read from it. -/
theorem smembers_of_holds (h : layout.Holds (inUse parent) s (cells t)) :
    smembers s Item.index.key = some t.world.jobNames ∧
    ∀ p, (∃ n, IsChild parent p n) → smembers s (Item.children p).key = some (t.children p) := by
  have hset : ∀ (key : String) (l : Finset String), s key = .of (setCell l) →
      smembers s key = some l := by
    intro key l hkey
    unfold smembers
    rw [hkey, Command.execute_of]
    exact congrArg some (setCell_getD l)
  exact ⟨hset _ _ (h .index trivial), fun p hp => hset _ _ (h (.children p) hp)⟩

/-! ## The invariant -/

/-- The sets hold the names and nothing else. -/
structure Inv (parent : JobName → Option String) (s : Broker) (t : Sets) (l : Finset JobName) :
    Prop where
  holds : layout.Holds (inUse parent) s (cells t)
  all : t.world.jobNames = l
  children : ∀ p, t.children p = l.filter (IsChild parent p)
  empty : (∃ n, IsChild parent "" n) → ∀ n ∈ l, IsChild parent "" n

theorem Inv.lists_index (h : Inv parent s t l) (n : String) : Lists s .index n ↔ n ∈ l := by
  unfold Lists
  rw [(smembers_of_holds h.holds).1, h.all]
  simp

theorem Inv.lists_children (h : Inv parent s t l) {p n : String} (hp : ∃ m, IsChild parent p m) :
    Lists s (.children p) n ↔ n ∈ t.children p := by
  unfold Lists
  rw [(smembers_of_holds h.holds).2 p hp]
  simp

/-- A set of names that is read globally and for every parent. -/
theorem matches_of_holds (h : layout.Holds (inUse parent) s (cells t)) : Matches parent s l ↔
    t.world.jobNames = l ∧ ∀ p, (∃ n, IsChild parent p n) →
      (if p = "" then t.world.jobNames else t.children p) = l.filter (IsChild parent p) ∧
        (t.children p).card = (l.filter (IsChild parent p)).card := by
  obtain ⟨hindex, hchildren⟩ := smembers_of_holds h
  have hall : allNames s none = some t.world.jobNames := hindex
  have hcount : count s none = some t.world.jobNames.card := by
    unfold count
    rw [hindex]
    rfl
  have hall' : ∀ p, (∃ n, IsChild parent p n) →
      allNames s (some p) = some (if p = "" then t.world.jobNames else t.children p) := by
    intro p hp
    show (if p = "" then smembers s Item.index.key else smembers s (Item.children p).key) = _
    rw [hindex, hchildren p hp, apply_ite some]
  have hcount' : ∀ p, (∃ n, IsChild parent p n) → count s (some p) = some (t.children p).card := by
    intro p hp
    show (smembers s (Item.children p).key).map Finset.card = _
    rw [hchildren p hp]
    rfl
  constructor
  · rintro ⟨⟨hl, -⟩, hp⟩
    refine ⟨Option.some.inj (hall.symm.trans hl), fun p hchild => ?_⟩
    obtain ⟨h1, h2⟩ := hp p hchild
    rw [hall' p hchild] at h1
    rw [hcount' p hchild] at h2
    exact ⟨Option.some.inj h1, Option.some.inj h2⟩
  · rintro ⟨hl, hp⟩
    refine ⟨⟨by rw [hall, hl], by rw [hcount, hl]⟩, fun p hchild => ?_⟩
    rw [hall' p hchild, hcount' p hchild, (hp p hchild).1, (hp p hchild).2]
    exact ⟨rfl, rfl⟩

theorem Inv.matches (h : Inv parent s t l) : Matches parent s l := by
  refine (matches_of_holds h.holds).2 ⟨h.all, fun p hp => ⟨?_, by rw [h.children]⟩⟩
  split
  · rename_i hempty
    subst hempty
    rw [h.all, Finset.filter_true_of_mem (h.empty hp)]
  · exact h.children p

theorem jobKey_ne (n : JobName) : World.jobKey n ≠ n := by
  intro h
  have hlen := congrArg String.length h
  unfold World.jobKey at hlen
  rw [String.length_append] at hlen
  have hpos : (":jobs:" : String).length = 6 := by decide
  omega

theorem addChild_eq {n : JobName} {children : String → Finset String}
    (h : ∀ p, children p = l.filter (IsChild parent p)) (p : String) :
    addChild parent n children p = (insert n l).filter (IsChild parent p) := by
  rw [Finset.filter_insert, addChild, h]

/-- The requests of an operation on a job whose key is clear stay within the items in use. -/
theorem mem_inUse {o : Op} (hclear : Clear parent o.name) {r : Request}
    (hr : r ∈ requests parent o) : r.1 ∈ inUse parent := by
  have hpipeline : ∀ (n : JobName) (a b : Store.Command .names) (c : Store.Command .jobHash),
      Clear parent n → ∀ r ∈ pipeline parent n a b c, r.1 ∈ inUse parent := by
    intro n a b c hn r hr
    unfold pipeline at hr
    split at hr
    · rcases List.mem_pair.1 hr with rfl | rfl
      · trivial
      · exact hn
    · rename_i p hp
      simp only [List.mem_cons, List.not_mem_nil, or_false] at hr
      rcases hr with rfl | rfl | rfl
      · trivial
      · exact ⟨n, hp⟩
      · exact hn
  cases o with
  | save j sa hj => exact hpipeline _ _ _ _ hclear r hr
  | delete j => exact hpipeline _ _ _ _ hclear r hr
  | expire j => exact hpipeline _ _ _ _ hclear r hr

theorem Inv.holds_step (h : Inv parent s t l) {o : Op} (hclear : Clear parent o.name) :
    layout.Holds (inUse parent) (step parent s o) (cells (t.step parent o)) := by
  rw [← ownAfter_requests]
  exact h.holds.after injOn_key fun r hr => mem_inUse hclear hr

/-- A save. -/
theorem Inv.save (h : Inv parent s t l) (j : JobModel) (sa : Bool) (hj : j.serializable = true)
    (hclear : Clear parent j.name) :
    (Matches parent (step parent s (.save j sa hj)) (insert j.name l) →
      Keeps parent s (.save j sa hj)) ∧
    (Keeps parent s (.save j sa hj) →
      Inv parent (step parent s (.save j sa hj)) (t.step parent (.save j sa hj)) (insert j.name l)) := by
  have hholds := h.holds_step (o := .save j sa hj) hclear
  have hworld : (t.step parent (.save j sa hj)).world.jobNames = insert j.name l := by
    show ((j.save sa).exec t.world).jobNames = _
    rw [Prog.exec, JobModel.run_save hj, ← h.all]
    rfl
  constructor
  · intro hmatch hempty
    have hall := (((matches_of_holds hholds).1 hmatch).2 "" hempty).1
    rw [if_pos rfl, hworld] at hall
    have hmem : j.name ∈ (insert j.name l).filter (IsChild parent "") := by
      rw [← hall]
      exact Finset.mem_insert_self _ _
    exact (Finset.mem_filter.1 hmem).2
  · intro hkeeps
    constructor
    · exact hholds
    · exact hworld
    · exact addChild_eq h.children
    · intro hempty n hn
      rcases Finset.mem_insert.1 hn with rfl | hn
      · exact hkeeps hempty
      · exact h.empty hempty n hn

/-- What a deletion leaves of the sets. -/
structure Deleted (parent : JobName → Option String) (n : JobName) (t t' : Sets) : Prop where
  all : t'.world.jobNames = t.world.jobNames.erase (World.jobKey n)
  children : t'.children = removeChild parent n t.children

/-- The condition of a deletion. -/
def Forgotten (parent : JobName → Option String) (n : JobName) (s : Broker) : Prop :=
  ¬ Lists s .index n ∧ ¬ Lists s .index (World.jobKey n) ∧
    ∀ p, IsChild parent p n → ¬ Lists s (.children p) "0"

theorem Inv.delete (h : Inv parent s t l) {n : JobName} {s' : Broker} {t' : Sets}
    (hholds : layout.Holds (inUse parent) s' (cells t')) (ht : Deleted parent n t t') :
    (Matches parent s' (l.erase n) → Forgotten parent n s) ∧
    (Forgotten parent n s → Inv parent s' t' (l.erase n)) := by
  unfold Forgotten
  rw [h.lists_index, h.lists_index]
  constructor
  · intro hmatch
    obtain ⟨hnames, hchildren⟩ := (matches_of_holds hholds).1 hmatch
    have hall : l.erase (World.jobKey n) = l.erase n := by
      rw [← hnames, ht.all, h.all]
    have hname : n ∉ l := by
      intro hn
      have hmem : n ∈ l.erase n := by
        rw [← hall]
        exact Finset.mem_erase.2 ⟨(jobKey_ne n).symm, hn⟩
      exact (Finset.mem_erase.1 hmem).1 rfl
    refine ⟨hname, ?_, fun p hp => ?_⟩
    · intro hkey
      have hmem : World.jobKey n ∈ l.erase (World.jobKey n) := by
        rw [hall]
        exact Finset.mem_erase.2 ⟨jobKey_ne n, hkey⟩
      exact (Finset.mem_erase.1 hmem).1 rfl
    · rw [h.lists_children ⟨n, hp⟩]
      intro hzero
      -- one name less among the children, though none was to go
      have hcount : (t'.children p).card = (t.children p).card := by
        rw [h.children, ← Finset.erase_eq_of_notMem hname]
        exact (hchildren p ⟨n, hp⟩).2
      have hless : (t'.children p).card < (t.children p).card := by
        rw [ht.children, removeChild, if_pos hp]
        refine Finset.card_lt_card ⟨Finset.sdiff_subset, fun hsub => ?_⟩
        exact (Finset.mem_sdiff.1 (hsub hzero)).2 (Finset.mem_insert_self _ _)
      omega
  · rintro ⟨hname, hkey, hzero⟩
    have hl : l.erase n = l := Finset.erase_eq_of_notMem hname
    rw [hl]
    constructor
    · exact hholds
    · rw [ht.all, h.all, Finset.erase_eq_of_notMem hkey]
    · intro p
      rw [ht.children, ← h.children, removeChild]
      split
      · rename_i hp
        have hzero' := (h.lists_children ⟨n, hp⟩).not.1 (hzero p hp)
        have hkey' : World.jobKey n ∉ t.children p := by
          rw [h.children]
          exact fun hmem => hkey (Finset.mem_filter.1 hmem).1
        refine Finset.sdiff_eq_self_of_disjoint (Finset.disjoint_right.2 fun m hm => ?_)
        rcases Finset.mem_insert.1 hm with rfl | hm
        · exact hzero'
        · rw [Finset.mem_singleton.1 hm]
          exact hkey'
      · rfl
    · exact h.empty

theorem Inv.step (h : Inv parent s t l) {o : Op} (hclear : Clear parent o.name) :
    (Matches parent (Index.step parent s o) (add l o) → Keeps parent s o) ∧
    (Keeps parent s o → Inv parent (Index.step parent s o) (t.step parent o) (add l o)) := by
  have hholds := h.holds_step hclear
  have hdeleted : ∀ j : JobModel, (j.delete.exec t.world).jobNames
      = t.world.jobNames.erase (World.jobKey j.name) := fun _ => rfl
  cases o with
  | save j sa hj => exact h.save j sa hj hclear
  | delete j => exact h.delete hholds ⟨hdeleted j, rfl⟩
  | expire j => exact h.delete hholds ⟨hdeleted j, rfl⟩

theorem inv_init : Inv parent init ⟨World.init 0, fun _ => ∅⟩ ∅ := by
  constructor
  · intro i _
    cases i <;> rfl
  · rfl
  · exact fun p => (Finset.filter_empty _).symm
  · exact fun _ n hn => absurd hn (Finset.notMem_empty n)

theorem Inv.run (h : Inv parent s t l) {ops : List Op} (hclear : ∀ o ∈ ops, Clear parent o.name) :
    (∀ pre, pre <+: ops → Matches parent (Run.last (Index.step parent) s pre) (names l pre)) ↔
      Run.Meets (Index.step parent) (Keeps parent) s ops := by
  induction ops generalizing s t l with
  | nil =>
      refine iff_of_true (fun pre hpre => ?_) trivial
      rw [List.prefix_nil.1 hpre]
      exact h.matches
  | cons o ops ih =>
      obtain ⟨ho, hops⟩ := List.forall_mem_cons.1 hclear
      constructor
      · intro hall
        have hkeeps : Keeps parent s o := by
          refine (h.step ho).1 (hall [o] ?_)
          exact List.cons_prefix_cons.2 ⟨rfl, List.nil_prefix⟩
        refine ⟨hkeeps, (ih ((h.step ho).2 hkeeps) hops).1 fun pre hpre => ?_⟩
        exact hall (o :: pre) (List.cons_prefix_cons.2 ⟨rfl, hpre⟩)
      · rintro ⟨hkeeps, hrest⟩ pre hpre
        cases pre with
        | nil => exact h.matches
        | cons o' pre =>
            obtain ⟨heq, htail⟩ := List.cons_prefix_cons.1 hpre
            rw [heq]
            exact (ih ((h.step ho).2 hkeeps) hops).2 hrest pre htail

/-- **The index sets match the records exactly as long as only forgotten names are deleted**, where no
record has the key of a set. After each operation of a run `all_names` and `count` say which names were
last saved, globally and for every parent, if and only if each operation keeps the sets. -/
theorem index_matches_iff (parent : JobName → Option String) (ops : List Op)
    (hclear : ∀ o ∈ ops, Clear parent o.name) :
    (∀ pre, pre <+: ops →
      Matches parent (Run.last (Index.step parent) init pre) (names ∅ pre)) ↔
    Run.Meets (Index.step parent) (Keeps parent) init ops :=
  inv_init.run hclear

theorem sample_serializable : (Sample.job "a").serializable = true := by decide

/-- A job without a parent that is saved and deleted. -/
def savedAndDeleted : List Op :=
  [.save (Sample.job "a") true sample_serializable, .delete (Sample.job "a")]

theorem clear_a (parent : JobName → Option String) (hparent : ∀ n, parent n = none) :
    Clear parent "a" := by
  refine ⟨by decide, fun p hp => ?_⟩
  obtain ⟨m, hm⟩ := hp
  rw [IsChild, hparent] at hm
  cases hm

/-- The name of a saved job is there, and so are the sets. -/
theorem index_matches_saved :
    Matches (fun _ => none) (Run.last (Index.step fun _ => none) init (savedAndDeleted.take 1))
      (names ∅ (savedAndDeleted.take 1)) := by
  have hclear : ∀ o ∈ savedAndDeleted.take 1, Clear (fun _ => none) o.name := by
    intro o ho
    rw [List.mem_singleton.1 ho]
    exact clear_a _ fun _ => rfl
  refine (index_matches_iff (fun _ => none) (savedAndDeleted.take 1) hclear).2 ⟨?_, trivial⟩ _
    (List.prefix_refl _)
  rintro ⟨n, hn⟩
  cases hn

/-- A job that is saved and deleted stays in the index. -/
theorem not_index_matches : ¬ ∀ (parent : JobName → Option String) (ops : List Op),
    Matches parent (Run.last (Index.step parent) init ops) (names ∅ ops) := by
  intro hall
  have hmatch := hall (fun _ => none) savedAndDeleted
  exact absurd hmatch.all.2 (by decide)

end DailyScheduler.Index
