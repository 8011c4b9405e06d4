-- SUMMARY: The files that mgmtd serves, and which targets stay below the directory of its static files.
import NfEngine.Lib.Path
import NfEngine.Mgmt.HttpRouter

/-!
# Static files

`HttpRouter::isStatic` looks at the beginning of the target only, and `HttpCache::get`
appends the target to its directory as it is. The file system reads the result component
by component, so a target that begins with `/js/` and goes up more often than down
leaves the directory.

`m_baseDir` is resolved against any working directory. Links are left out.
-/

namespace NfEngine

open Lib Lib.Path

/-! ## Paths as the file system reads them -/

/-- What stands between two slashes. -/
def component (segment : Text) : Component Text :=
  if segment = [] ∨ segment = ".".toList then .here
  else if segment = "..".toList then .up
  else .name segment

def components (path : Text) : List (Component Text) := (path.splitOn '/').map component

/-- The place of a path; a relative one starts from the working directory. -/
def resolvePath (cwd : List Text) (path : Text) : List Text :=
  resolve (if path.head? = some '/' then [] else cwd) (components path)

theorem components_append (path rest : Text) :
    components (path ++ '/' :: rest) = components path ++ components rest := by
  unfold components
  rw [List.splitOn_append_cons_self, List.map_append]

/-- A path below a directory continues from where the directory is. -/
theorem resolvePath_append {cwd : List Text} {dir : Text} (hdir : dir ≠ []) (rest : Text) :
    resolvePath cwd (dir ++ '/' :: rest) = resolve (resolvePath cwd dir) (components rest) := by
  unfold resolvePath
  rw [components_append, resolve_append, List.head?_append_of_ne_nil dir hdir]

/-- The slash at the beginning does not count. -/
theorem stays_components_cons (rest : Text) :
    stays 0 (components ('/' :: rest)) = stays 0 (components rest) := by
  rw [← List.nil_append ('/' :: rest), components_append]
  rfl

theorem length_le_of_mem_splitOn {path segment : Text} (h : segment ∈ path.splitOn '/') :
    segment.length ≤ path.length := by
  induction path generalizing segment with
  | nil =>
    rw [List.splitOn_nil, List.mem_singleton] at h
    rw [h]
  | cons c path ih =>
    rw [List.splitOn_cons_eq_if_modifyHead] at h
    split at h
    · cases h with
      | head => exact Nat.zero_le _
      | tail _ hmem => exact Nat.le_succ_of_le (ih hmem)
    · cases hsplit : path.splitOn '/' with
      | nil => exact absurd hsplit (List.splitOn_ne_nil '/' path)
      | cons first segments =>
        rw [hsplit] at h ih
        cases h with
        | head => exact Nat.succ_le_succ (ih List.mem_cons_self)
        | tail _ hmem => exact Nat.le_succ_of_le (ih (List.mem_cons_of_mem first hmem))

/-- A name that the path is too short to contain. -/
theorem name_not_mem_components {path segment : Text} (h : path.length < segment.length) :
    .name segment ∉ components path := by
  intro hmem
  obtain ⟨other, hother, heq⟩ := List.mem_map.mp hmem
  have hname : other = segment := by
    unfold component at heq
    split at heq
    · cases heq
    · split at heq
      · cases heq
      · exact Component.name.inj heq
  exact absurd (length_le_of_mem_splitOn hother) (Nat.not_le.mpr (hname ▸ h))

theorem components_replicate (k : ℕ) :
    components (List.replicate (k + 1) 'x') = [.name (List.replicate (k + 1) 'x')] := by
  have hslash : '/' ∉ List.replicate (k + 1) 'x' := by simp
  have hname : component (List.replicate (k + 1) 'x') = .name (List.replicate (k + 1) 'x') := by
    simp [component, List.replicate_succ]
  rw [components, List.splitOn_eq_singleton hslash, List.map_singleton, hname]

/-! ## What is served -/

namespace HttpCache

/-- The path that `get` opens. -/
def filePath (cache : HttpCache) (path : Text) : Text :=
  if path = "/".toList then cache.baseDir ++ "/index.html".toList else cache.baseDir ++ path

theorem get_of_loadFile {cache : HttpCache} {path body : Text}
    (h : cache.loadFile (cache.filePath path) = some body) :
    ∃ entry, cache.get path = some entry ∧ entry.body = body := by
  unfold filePath at h
  unfold get
  split at h
  next hroot =>
    rw [if_pos hroot, h]
    exact ⟨_, rfl, rfl⟩
  next hroot =>
    rw [if_neg hroot, h]
    exact ⟨_, rfl, rfl⟩

end HttpCache

namespace HttpRouter

/-- `handle` takes the request for a static one and answers with the content of the
    file. -/
structure Serves (router : HttpRouter) (req : Request) (path : Text) : Prop where
  isStatic : isStatic req.target = true
  path_eq : path = router.cache.filePath req.target
  response : ∀ now stats, ∃ res, (router.handle now stats req).response = .ok res ∧
    res.status = .ok ∧ router.cache.loadFile path = some res.body

/-- A static request is answered from its file whenever that can be opened. -/
theorem serves_of_loadFile {router : HttpRouter} {req : Request} {body : Text}
    (hstatic : isStatic req.target = true)
    (hload : router.cache.loadFile (router.cache.filePath req.target) = some body) :
    router.Serves req (router.cache.filePath req.target) := by
  obtain ⟨entry, hget, rfl⟩ := HttpCache.get_of_loadFile hload
  refine ⟨hstatic, rfl, fun now stats => ⟨router.handleStatic req, ?_, ?_, ?_⟩⟩
  · unfold handle
    rw [if_pos hstatic]
  · rw [handleStatic, hget]
    rfl
  · rw [handleStatic, hget]
    exact hload

/-- A static target other than `/` has a slash in front. -/
theorem isStatic_cons {target : Text} (h : isStatic target = true) : ∃ rest, target = '/' :: rest := by
  have hslash : "/".toList <+: target := by
    simp only [isStatic, Bool.or_eq_true, beq_iff_eq, List.isPrefixOf_iff_prefix] at h
    rcases h with ((rfl | hjs) | hcss) | himg
    · exact List.prefix_rfl
    · exact List.IsPrefix.trans (by decide) hjs
    · exact List.IsPrefix.trans (by decide) hcss
    · exact List.IsPrefix.trans (by decide) himg
  obtain ⟨rest, rfl⟩ := hslash
  exact ⟨rest, rfl⟩

/-- The path that is served continues the directory with the target, or with the index. -/
theorem filePath_eq {cache : HttpCache} {target : Text} (h : isStatic target = true) :
    ∃ rest, cache.filePath target = cache.baseDir ++ '/' :: rest ∧
      (target = "/".toList ∧ rest = "index.html".toList ∨ target = '/' :: rest) := by
  obtain ⟨rest, rfl⟩ := isStatic_cons h
  by_cases hroot : '/' :: rest = "/".toList
  · exact ⟨"index.html".toList, if_pos hroot, .inl ⟨hroot, rfl⟩⟩
  · exact ⟨rest, if_neg hroot, .inr rfl⟩

/-- A router that can open every file. -/
def openRouter (baseDir : Text) : HttpRouter :=
  ⟨⟨baseDir, fun _ => some []⟩, ⟨Map.empty, [], [], [], id⟩, fun _ => none⟩

/-- It serves a static target with a climbing path from outside of a directory with a new
    name. -/
theorem exists_served_outside {req : Request} (hstatic : isStatic req.target = true)
    (hclimbs : stays 0 (components req.target) = false) :
    ∃ baseDir, baseDir ≠ [] ∧ ∃ path, (openRouter baseDir).Serves req path ∧
      ¬ resolvePath [] baseDir <+: resolvePath [] path := by
  obtain ⟨name, hname⟩ : ∃ name : Text, name = List.replicate (req.target.length + 1) 'x' := ⟨_, rfl⟩
  have hlen : req.target.length < name.length := by
    rw [hname, List.length_replicate]
    exact Nat.lt_succ_self _
  have hbase : resolvePath [] ('/' :: name) = [name] := by
    rw [← List.nil_append ('/' :: name), resolvePath, components_append, hname, components_replicate]
    rfl
  refine ⟨'/' :: name, List.cons_ne_nil _ _, _, serves_of_loadFile hstatic rfl, ?_⟩
  obtain ⟨rest, hpath, htarget⟩ := @filePath_eq (openRouter ('/' :: name)).cache _ hstatic
  have hresolve := @resolvePath_append [] _ (List.cons_ne_nil '/' name) rest
  rw [hbase] at hresolve
  rw [hpath, hbase]
  change ¬ [name] <+: resolvePath [] ('/' :: name ++ '/' :: rest)
  rw [hresolve]
  rcases htarget with ⟨hroot, _⟩ | htarget
  · rw [hroot] at hclimbs
    exact absurd hclimbs (by decide)
  · intro hbelow
    rw [htarget] at hclimbs hlen
    rw [stays_components_cons] at hclimbs
    refine @not_mem_resolve_of_not_stays _ [] _ name hclimbs List.not_mem_nil ?_
      (hbelow.subset List.mem_cons_self)
    exact name_not_mem_components (Nat.lt_of_succ_lt hlen)

/-- The files that are served for a target lie below the directory of the static files,
    wherever that is, exactly when the target never goes up further than it has come
    down. -/
theorem served_below_iff (req : Request) :
    (∀ (cwd : List Text) (router : HttpRouter) (path : Text), router.cache.baseDir ≠ [] →
        router.Serves req path → resolvePath cwd router.cache.baseDir <+: resolvePath cwd path) ↔
      (isStatic req.target = true → stays 0 (components req.target) = true) := by
  constructor
  · intro hbelow hstatic
    by_contra hclimbs
    obtain ⟨baseDir, hdir, path, hserves, hnot⟩ :=
      exists_served_outside hstatic (Bool.not_eq_true _ ▸ hclimbs)
    exact hnot (hbelow [] (openRouter baseDir) path hdir hserves)
  · intro hstays cwd router path hdir hserves
    obtain ⟨rest, hpath, htarget⟩ := @filePath_eq router.cache _ hserves.isStatic
    rw [hserves.path_eq, hpath, resolvePath_append hdir]
    apply isPrefix_resolve
    rcases htarget with ⟨_, rfl⟩ | htarget
    · decide
    · rw [← stays_components_cons, ← htarget]
      exact hstays hserves.isStatic

/-- The password file of the machine is served. -/
theorem passwd_served :
    ∃ (router : HttpRouter) (req : Request) (path : Text), router.cache.baseDir ≠ [] ∧
      req.target = "/js/../../../../../etc/passwd".toList ∧ router.Serves req path ∧
      router.cache.baseDir = "/opt/nf-engine/mgmtd/www".toList ∧
      resolvePath [] path = ["etc".toList, "passwd".toList] ∧
      ¬ resolvePath [] router.cache.baseDir <+: resolvePath [] path := by
  refine ⟨openRouter "/opt/nf-engine/mgmtd/www".toList,
    ⟨"/js/../../../../../etc/passwd".toList, .other, 11, true, none, []⟩, _, by decide, rfl,
    serves_of_loadFile (by decide) rfl, rfl, by decide +kernel, by decide +kernel⟩

end HttpRouter

end NfEngine
