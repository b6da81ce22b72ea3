import Datamodel.Storage.Access
import Mathlib.Data.List.TakeWhile
import Mathlib.Tactic.SplitIfs

/-!
# What a write does to a storage

The place of a path is where its names lead when every directory on the way is there, so it is told
by the names alone. A path that leads anywhere leads to its place, and a file that is written stands
at the place of its path and changes nothing else. All that a path can do besides is to lead nowhere
although something stands at its place: this is so where it goes through a directory that is missing
and out of it again, and making that directory is what opens the way.
-/

namespace Datamodel.Storage

/-! ### Trees -/

/-- Whatever stands in a storage has a name that can be used and stands in a directory. -/
structure IsTree (storage : Storage) : Prop where
  usable : ∀ {name position}, (storage.node? (name :: position)).isSome → isUsableName name
  inside : ∀ {name position}, (storage.node? (name :: position)).isSome →
    storage.isDirectory position
  current : storage.isDirectory storage.current

/-- Whatever stands anywhere in a storage stands there in another one as well. -/
def Keeps (storage after : Storage) : Prop :=
  ∀ position node, storage.node? position = some node → after.node? position = some node

/-- Whatever stands anywhere but at one position in a storage stands there in another one as
well. -/
def KeepsBut (storage after : Storage) (position : Position) : Prop :=
  ∀ other, other ≠ position → ∀ node, storage.node? other = some node →
    after.node? other = some node

variable {storage after : Storage} {position other : Position} {name : String} {names : PathNames}

theorem isDirectory_iff :
    storage.isDirectory position ↔ storage.node? position = some .directory := by
  unfold isDirectory
  split
  · simp_all
  · simp_all

theorem isSome_of_isDirectory (h : storage.isDirectory position) :
    (storage.node? position).isSome := by
  rw [isDirectory_iff.1 h]
  rfl

theorem Keeps.isDirectory (h : storage.Keeps after) (hdir : storage.isDirectory position) :
    after.isDirectory position :=
  isDirectory_iff.2 (h _ _ (isDirectory_iff.1 hdir))

theorem IsTree.tail (h : storage.IsTree) (hdir : storage.isDirectory position) :
    storage.isDirectory position.tail := by
  cases position with
  | nil => exact hdir
  | cons name position => exact h.inside (isSome_of_isDirectory hdir)

theorem isTree_empty : IsTree {} where
  usable h := by simp [node?] at h
  inside h := by simp [node?] at h
  current := rfl

theorem isDirectory_set (hfree : storage.isDirectory (name :: position) = false)
    (node : StorageNode) (h : storage.isDirectory other) :
    (storage.set (name :: position) node).isDirectory other := by
  have hne : other ≠ name :: position := by
    rintro rfl
    rw [h] at hfree
    contradiction
  rw [isDirectory_iff, node?_set storage (List.cons_ne_nil name position), if_neg hne]
  exact isDirectory_iff.1 h

theorem isSome_set (node : StorageNode) (h : (storage.node? other).isSome) :
    ((storage.set (name :: position) node).node? other).isSome := by
  rw [node?_set storage (List.cons_ne_nil name position)]
  split
  · rfl
  · exact h

/-- A directory can be given anything under a name that can be used and is not that of a
directory. -/
theorem IsTree.set (h : storage.IsTree) (hdir : storage.isDirectory position)
    (husable : isUsableName name) (hfree : storage.isDirectory (name :: position) = false)
    (node : StorageNode) : (storage.set (name :: position) node).IsTree := by
  have hset := node?_set storage (List.cons_ne_nil name position) node
  constructor
  · intro name' position' hsome
    rw [hset] at hsome
    split at hsome
    · rename_i heq
      rw [(List.cons.inj heq).1]
      exact husable
    · exact h.usable hsome
  · intro name' position' hsome
    rw [hset] at hsome
    split at hsome
    · rename_i heq
      rw [(List.cons.inj heq).2]
      exact isDirectory_set hfree node hdir
    · exact isDirectory_set hfree node (h.inside hsome)
  · exact isDirectory_set hfree node h.current

/-! ### Places -/

/-- Where names lead from a position if every directory on the way is there. -/
def placeFrom (position : Position) : PathNames → Position
  | [] => position
  | name :: names =>
    if isStay name then placeFrom position names
    else if name = ".." then placeFrom position.tail names
    else placeFrom (name :: position) names

/-- Where a path leads if every directory on the way is there. -/
def place (storage : Storage) (path : String) : Position :=
  placeFrom (storage.start path) (pathNames path)

theorem placeFrom_append (position : Position) (front back : PathNames) :
    placeFrom position (front ++ back) = placeFrom (placeFrom position front) back := by
  induction front generalizing position with
  | nil => rfl
  | cons name front ih =>
    rw [List.cons_append, placeFrom, placeFrom, ih, ih, ih]
    split_ifs <;> rfl

theorem placeFrom_singleton (hstay : isStay name = false) (hup : name ≠ "..") :
    placeFrom position [name] = name :: position := by
  simp [placeFrom, hstay, hup]

theorem walk_append (storage : Storage) (position : Position) (front back : PathNames) :
    storage.walk position (front ++ back) =
      (storage.walk position front).bind (storage.walk · back) := by
  induction front generalizing position with
  | nil => rfl
  | cons name front ih =>
    rw [List.cons_append, walk, walk, ih, ih, ih]
    split_ifs <;> rfl

theorem walk_eq_placeFrom (h : storage.walk position names = some other) :
    other = placeFrom position names := by
  fun_induction placeFrom position names <;> simp_all [walk]

theorem walk_stay (hdir : storage.isDirectory position) (hstay : isStay name) :
    storage.walk position (name :: names) = storage.walk position names := by
  rw [walk, if_neg (by simp [hdir]), if_pos hstay]

theorem walk_up (hdir : storage.isDirectory position) :
    storage.walk position (".." :: names) = storage.walk position.tail names := by
  rw [walk, if_neg (by simp [hdir]), if_neg (by decide), if_pos rfl]

theorem walk_name (hdir : storage.isDirectory position) (hstay : isStay name = false)
    (hup : name ≠ "..") (husable : isUsableName name)
    (hsome : (storage.node? (name :: position)).isSome) :
    storage.walk position (name :: names) = storage.walk (name :: position) names := by
  rw [walk, if_neg (by simp [hdir]), if_neg (by simp [hstay]), if_neg hup,
    if_pos (by simp [husable, hsome])]

theorem walk_of_kept (hdir : ∀ position, storage.isDirectory position → after.isDirectory position)
    (hsome : ∀ position, (storage.node? position).isSome → (after.node? position).isSome)
    (h : storage.walk position names = some other) : after.walk position names = some other := by
  induction names generalizing position with
  | nil => exact h
  | cons name names ih =>
    rw [walk] at h
    split_ifs at h with hfile hstay hup hnext
    all_goals have hhere : after.isDirectory position := hdir _ (by simpa using hfile)
    · rw [walk_stay hhere hstay]
      exact ih h
    · rw [hup, walk_up hhere]
      exact ih h
    · rw [Bool.and_eq_true] at hnext
      rw [walk_name hhere (by simpa using hstay) hup hnext.1 (hsome _ hnext.2)]
      exact ih h

/-! ### Making directories -/

theorem keeps_enter (storage : Storage) (position : Position) (names : PathNames) :
    storage.Keeps (storage.enter position names).2 :=
  fun _ _ => node?_enter

theorem current_enter (storage : Storage) (position : Position) (names : PathNames) :
    (storage.enter position names).2.current = storage.current := by
  fun_induction enter storage position names with
  | case1 | case4 | case6 => rfl
  | case2 _ _ _ ih | case3 _ _ _ _ _ _ ih | case5 _ _ _ _ _ _ _ ih => exact ih

theorem isDirectory_set_directory (storage : Storage) (name : String) (position : Position) :
    (storage.set (name :: position) .directory).isDirectory (name :: position) := by
  rw [isDirectory_iff, node?_set storage (List.cons_ne_nil name position), if_pos rfl]

theorem IsTree.set_directory (h : storage.IsTree) (hdir : storage.isDirectory position)
    (husable : isUsableName name) (hmissing : storage.node? (name :: position) = none) :
    (storage.set (name :: position) .directory).IsTree := by
  refine h.set hdir husable ?_ .directory
  rw [isDirectory, hmissing]

theorem IsTree.enter (h : storage.IsTree) (hdir : storage.isDirectory position)
    (names : PathNames) : (storage.enter position names).2.IsTree := by
  fun_induction Storage.enter storage position names with
  | case1 | case4 | case6 => exact h
  | case2 storage position names ih => exact ih h (h.tail hdir)
  | case3 storage position name names _ hnode ih => exact ih h (isDirectory_iff.2 hnode)
  | case5 storage position name names _ hmissing husable ih =>
    exact ih (h.set_directory hdir husable hmissing)
      (storage.isDirectory_set_directory name position)

/-- Where all directories of a path could be made, the path leads to the last of them, which is at
its place. -/
theorem walk_enter (h : storage.IsTree) (hdir : storage.isDirectory position)
    (henter : storage.enter position (names.filter (!isStay ·)) = (some other, after)) :
    other = placeFrom position names ∧ after.isDirectory other ∧
    after.walk position names = some other := by
  induction names generalizing storage position with
  | nil =>
    obtain ⟨hplace, rfl⟩ := Prod.mk.inj henter
    obtain rfl := Option.some.inj hplace
    exact ⟨rfl, hdir, rfl⟩
  | cons name names ih =>
    -- The path is walked in the storage at the end, which has all that there was on the way.
    have hkept := keeps_enter storage position ((name :: names).filter (!isStay ·))
    rw [henter] at hkept
    have hhere : after.isDirectory position := hkept.isDirectory hdir
    rw [placeFrom]
    by_cases hstay : isStay name
    · rw [List.filter_cons_of_neg (by simp [hstay])] at henter
      rw [if_pos hstay, walk_stay hhere hstay]
      exact ih h hdir henter
    rw [List.filter_cons_of_pos (by simp [hstay]), enter] at henter
    rw [if_neg hstay]
    by_cases hup : name = ".."
    · rw [if_pos hup] at henter
      rw [if_pos hup, hup, walk_up hhere]
      exact ih h (h.tail hdir) henter
    rw [if_neg hup] at henter
    rw [if_neg hup]
    have hname : isStay name = false := by simpa using hstay
    cases hnode : storage.node? (name :: position) with
    | some node =>
      rw [hnode] at henter
      cases node with
      | file content => exact absurd (Prod.mk.inj henter).1 (by simp)
      | directory =>
        have hsome : (storage.node? (name :: position)).isSome := by simp [hnode]
        rw [walk_name hhere hname hup (h.usable hsome) (by simp [hkept _ _ hnode])]
        exact ih h (isDirectory_iff.2 hnode) henter
    | none =>
      rw [hnode] at henter
      dsimp only at henter
      split_ifs at henter with husable
      · have hmade := storage.isDirectory_set_directory name position
        have hthere := keeps_enter (storage.set (name :: position) .directory) (name :: position)
          (names.filter (!isStay ·))
        rw [henter] at hthere
        rw [walk_name hhere hname hup husable (isSome_of_isDirectory (hthere.isDirectory hmade))]
        exact ih (h.set_directory hdir husable hnode) hmade henter
      · exact absurd (Prod.mk.inj henter).1 (by simp)

/-! ### Writing files -/

variable {path : String} {content : ByteArray}

theorem IsTree.start (h : storage.IsTree) (path : String) :
    storage.isDirectory (storage.start path) := by
  rw [Storage.start]
  split
  · rfl
  · exact h.current

theorem start_of_current (hcurrent : after.current = storage.current) (path : String) :
    after.start path = storage.start path := by
  rw [Storage.start, Storage.start, hcurrent]

theorem path_ne_empty {front : PathNames} (hnames : pathNames path = front ++ [name])
    (hstay : isStay name = false) : path ≠ "" := by
  rintro rfl
  have hlast := congrArg List.getLast? hnames
  rw [List.getLast?_concat] at hlast
  rw [← Option.some.inj hlast] at hstay
  exact absurd hstay (by decide)

theorem place_of_names {front : PathNames} (hnames : pathNames path = front ++ [name])
    (hstay : isStay name = false) (hup : name ≠ "..") :
    storage.place path = name :: placeFrom (storage.start path) front := by
  rw [place, hnames, placeFrom_append, placeFrom_singleton hstay hup]

/-- A path leads to its last name where the names before it lead to the directory that has it. -/
theorem resolve_of_names {front : PathNames} (hnames : pathNames path = front ++ [name])
    (hsize : pathSize (pathNames path) ≤ longestPath) (hstay : isStay name = false)
    (hup : name ≠ "..") (husable : isUsableName name)
    (hwalk : storage.walk (storage.start path) front = some position)
    (hdir : storage.isDirectory position) (hsome : (storage.node? (name :: position)).isSome) :
    storage.resolve? path = some (name :: position) := by
  rw [resolve?, if_neg (by simp [path_ne_empty hnames hstay, hsize]), hnames, walk_append, hwalk,
    Option.bind_some, walk_name hdir hstay hup husable hsome]
  rfl

theorem filter_parentNames (front : PathNames) (hstay : isStay name = false) :
    (parentNames (front ++ [name])).filter (!isStay ·) = front.filter (!isStay ·) := by
  have hfront : (front.reverse.takeWhile isStay ++ front.reverse.dropWhile isStay).filter
      (!isStay ·) = (front.reverse.dropWhile isStay).filter (!isStay ·) := by
    rw [List.filter_append, List.append_left_eq_self, List.filter_eq_nil_iff]
    intro name hname
    simpa using List.mem_takeWhile_imp hname
  rw [List.takeWhile_append_dropWhile] at hfront
  rw [parentNames, List.reverse_append, List.reverse_singleton, List.singleton_append,
    List.dropWhile_cons_of_neg (by simp [hstay]), List.tail_cons, List.filter_reverse, ← hfront,
    List.filter_reverse, List.reverse_reverse]

/-- All that a write can do: it fails, perhaps after some directories were made, or the directories
of the path are there and a file is put under its last name. -/
theorem write_cases (storage : Storage) (path : String) (content : ByteArray) :
    (∃ names, storage.write path content = (false, (storage.enter (storage.start path) names).2)) ∨
      ∃ front name position made, pathNames path = front ++ [name] ∧ isStay name = false ∧
        name ≠ ".." ∧
        isUsableName name ∧ pathSize (pathNames path) ≤ longestPath ∧
        storage.enter (storage.start path) (front.filter (!isStay ·)) = (some position, made) ∧
        made.isDirectory (name :: position) = false ∧
        storage.write path content = (true, made.set (name :: position) (.file content)) := by
  rw [write]
  dsimp only
  split_ifs with hparents
  · exact .inl ⟨[], rfl⟩
  rcases henter : storage.enter (storage.start path)
    ((parentNames (pathNames path)).filter (!isStay ·)) with
    ⟨_ | position, made⟩
  · exact .inl ⟨_, by rw [henter]⟩
  · dsimp only
    split_ifs with hlast
    · right
      simp only [isWritable, Bool.and_eq_true, decide_eq_true_eq, Bool.not_eq_true',
        bne_iff_ne] at hlast
      obtain ⟨hsize, ⟨⟨hstay, hup⟩, husable⟩, hfree⟩ := hlast
      obtain hnone | ⟨front, name, hnames⟩ := (pathNames path).eq_nil_or_concat
      · rw [hnone] at hstay
        exact absurd hstay (by decide)
      · rw [List.concat_eq_append] at hnames
        rw [hnames, List.getLastD_concat] at hstay hup husable hfree
        rw [hnames, filter_parentNames front hstay] at henter
        rw [hnames, List.getLastD_concat]
        exact ⟨front, name, position, made, rfl, hstay, hup, husable, hnames ▸ hsize, henter,
          hfree, rfl⟩
    · exact .inl ⟨_, by rw [henter]⟩

theorem IsTree.write (h : storage.IsTree) (path : String) (content : ByteArray) :
    (storage.write path content).2.IsTree := by
  obtain ⟨names, hwrite⟩ | ⟨front, name, position, made, -, -, -, husable, -, henter, hfree,
      hwrite⟩ :=
    write_cases storage path content
  · rw [hwrite]
    exact h.enter (h.start path) names
  · rw [hwrite]
    have hmade := h.enter (h.start path) (front.filter (!isStay ·))
    rw [henter] at hmade
    exact hmade.set (walk_enter h (h.start path) henter).2.1 husable hfree (.file content)

theorem keeps_of_write (hwrite : storage.write path content = (false, after)) :
    storage.Keeps after := by
  obtain ⟨names, hcase⟩ | ⟨_, _, _, _, -, -, -, -, -, -, -, hcase⟩ :=
    write_cases storage path content
  · rw [hcase] at hwrite
    rw [← (Prod.mk.inj hwrite).2]
    exact keeps_enter storage (storage.start path) names
  · rw [hcase] at hwrite
    exact absurd (Prod.mk.inj hwrite).1 (by simp)

/-- A write that goes well puts the file at the place of its path, where the path leads then, and
changes nothing else that was there. -/
theorem written_at_place (h : storage.IsTree)
    (hwrite : storage.write path content = (true, after)) :
    after.resolve? path = some (storage.place path) ∧
      after.node? (storage.place path) = some (.file content) ∧
      storage.isDirectory (storage.place path) = false ∧
      storage.KeepsBut after (storage.place path) := by
  obtain ⟨names, hcase⟩ | ⟨front, name, position, made, hnames, hstay, hup, husable, hsize, henter,
      hfree, hcase⟩ :=
    write_cases storage path content
  · rw [hcase] at hwrite
    exact absurd (Prod.mk.inj hwrite).1 (by simp)
  rw [hcase] at hwrite
  obtain ⟨-, rfl⟩ := Prod.mk.inj hwrite
  have hset := node?_set made (List.cons_ne_nil name position) (.file content)
  have hkept := keeps_enter storage (storage.start path) (front.filter (!isStay ·))
  have hcurrent := current_enter storage (storage.start path) (front.filter (!isStay ·))
  rw [henter] at hkept hcurrent
  obtain ⟨hposition, hdir, hwalk⟩ := walk_enter h (h.start path) henter
  have hplace : storage.place path = name :: position := by
    rw [place_of_names hnames hstay hup, hposition]
  rw [hplace]
  refine ⟨?_, ?_, ?_, ?_⟩
  · have hstart : (made.set (name :: position) (.file content)).start path = storage.start path :=
      start_of_current hcurrent path
    have hparent := walk_of_kept (fun _ => isDirectory_set hfree (.file content))
      (fun _ => isSome_set (.file content)) hwalk
    have hfile :
        ((made.set (name :: position) (.file content)).node? (name :: position)).isSome := by
      rw [hset, if_pos rfl]
      rfl
    rw [← hstart] at hparent
    exact resolve_of_names hnames hsize hstay hup husable hparent
      (isDirectory_set hfree _ hdir) hfile
  · rw [hset, if_pos rfl]
  · rw [Bool.eq_false_iff]
    intro hbefore
    rw [hkept.isDirectory hbefore] at hfree
    contradiction
  · intro other hne node hother
    rw [hset, if_neg hne]
    exact hkept other node hother

theorem read_of_node (hresolve : storage.resolve? path = some position)
    (hnode : storage.node? position = some (.file content)) : storage.read path = some content := by
  simp only [read, hresolve, Option.bind_eq_bind, Option.bind_some, hnode]

/-! ### Ways that are not there -/

/-- Whether a path goes back out of a place where nothing stands. -/
def Detours (storage : Storage) (path : String) : Prop :=
  ∃ front back, pathNames path = front ++ ".." :: back ∧
    storage.node? (placeFrom (storage.start path) front) = none

/-- In a tree nothing stands below a missing directory, so only two dots lead from there to where
something stands. -/
theorem exists_detour (h : storage.IsTree) (hmissing : storage.node? position = none)
    (hthere : (storage.node? (placeFrom position names)).isSome) :
    ∃ front back, names = front ++ ".." :: back ∧
      storage.node? (placeFrom position front) = none := by
  induction names generalizing position with
  | nil =>
    rw [placeFrom, hmissing] at hthere
    contradiction
  | cons name names ih =>
    by_cases hup : name = ".."
    · exact ⟨[], names, by rw [hup]; rfl, hmissing⟩
    have hnext : storage.node? (placeFrom position [name]) = none := by
      rw [placeFrom]
      split_ifs
      · exact hmissing
      · cases hnode : storage.node? (name :: position) with
        | none => exact hnode
        | some node =>
          have hsome : (storage.node? (name :: position)).isSome := by simp [hnode]
          have hdir := h.inside hsome
          rw [isDirectory_iff, hmissing] at hdir
          contradiction
    rw [← List.singleton_append, placeFrom_append] at hthere
    obtain ⟨front, back, hnames, hfront⟩ := ih hnext hthere
    exact ⟨name :: front,
      back, by rw [hnames]; rfl, by rw [← List.singleton_append, placeFrom_append, hfront]⟩

/-- A path whose directories can be made leads where they end, unless one of them is missing. -/
theorem walk_or_missing (h : storage.IsTree) (hdir : storage.isDirectory position)
    (henter : storage.enter position (names.filter (!isStay ·)) = (some other, after)) :
    storage.walk position names = some other ∨
      ∃ front back, names = front ++ back ∧ storage.node? (placeFrom position front) = none := by
  induction names generalizing position with
  | nil => exact .inl (congrArg Prod.fst henter)
  | cons name names ih =>
    have hcons : ∀ {next}, placeFrom position [name] = next →
        (∃ front back, names = front ++ back ∧ storage.node? (placeFrom next front) = none) →
        ∃ front back, name :: names = front ++ back ∧
          storage.node? (placeFrom position front) = none := by
      rintro next rfl ⟨front, back, rfl, hfront⟩
      exact ⟨name :: front, back, rfl, by rw [← List.singleton_append, placeFrom_append, hfront]⟩
    by_cases hstay : isStay name
    · rw [List.filter_cons_of_neg (by simp [hstay])] at henter
      rw [walk_stay hdir hstay]
      exact (ih hdir henter).imp_right (hcons (by rw [placeFrom, if_pos hstay]; rfl))
    rw [List.filter_cons_of_pos (by simp [hstay]), enter] at henter
    by_cases hup : name = ".."
    · rw [if_pos hup] at henter
      subst hup
      rw [walk_up hdir]
      exact (ih (h.tail hdir) henter).imp_right
        (hcons (by rw [placeFrom, if_neg hstay, if_pos rfl]; rfl))
    rw [if_neg hup] at henter
    have hname : isStay name = false := by simpa using hstay
    cases hnode : storage.node? (name :: position) with
    | none => exact .inr ⟨[name], names, rfl, by rw [placeFrom_singleton hname hup, hnode]⟩
    | some node =>
      rw [hnode] at henter
      cases node with
      | file content => exact absurd (Prod.mk.inj henter).1 (by simp)
      | directory =>
        have hsome : (storage.node? (name :: position)).isSome := by simp [hnode]
        rw [walk_name hdir hname hup (h.usable hsome) hsome]
        exact (ih (isDirectory_iff.2 hnode) henter).imp_right
          (hcons (placeFrom_singleton hname hup))

theorem contains_eq_false_of_detours (h : storage.Detours path) :
    storage.contains path = false := by
  obtain ⟨front, back, hnames, hmissing⟩ := h
  have hnone : storage.walk (storage.start path) (front ++ ".." :: back) = none := by
    rw [walk_append, Option.bind_eq_none_iff]
    intro position hposition
    rw [walk_eq_placeFrom hposition, walk, if_pos]
    rw [isDirectory, hmissing]
    rfl
  rw [contains, resolve?, hnames, hnone]
  split <;> rfl

/-- Where something stands at the place of a path that can be written to, the path does not lead
there exactly if it goes back out of a directory that is missing. -/
theorem contains_eq_false_iff (h : storage.IsTree)
    (hwrite : storage.write path content = (true, after))
    (hthere : (storage.node? (storage.place path)).isSome) : storage.contains path = false ↔
    storage.Detours path := by
  refine ⟨fun hnowhere => ?_, contains_eq_false_of_detours⟩
  obtain ⟨names, hcase⟩ | ⟨front, name, position, made, hnames, hstay, hup, husable, hsize,
      henter, -, -⟩ :=
    write_cases storage path content
  · rw [hcase] at hwrite
    exact absurd (Prod.mk.inj hwrite).1 (by simp)
  obtain hwalk | ⟨passed, ahead, hsplit, hmissing⟩ := walk_or_missing h (h.start path) henter
  · obtain rfl := walk_eq_placeFrom hwalk
    rw [place_of_names hnames hstay hup] at hthere
    rw [contains, resolve_of_names hnames hsize hstay hup husable hwalk (h.inside hthere)
      hthere] at hnowhere
    contradiction
  · have hrest : storage.place path =
        placeFrom (placeFrom (storage.start path) passed) (ahead ++ [name]) := by
      rw [place, hnames, hsplit, List.append_assoc, placeFrom_append]
    rw [hrest] at hthere
    obtain ⟨before, back, hback, hbefore⟩ := exists_detour h hmissing hthere
    refine ⟨passed ++ before, back, ?_, by rw [placeFrom_append, hbefore]⟩
    rw [hnames, hsplit, List.append_assoc, hback, List.append_assoc]

end Datamodel.Storage
