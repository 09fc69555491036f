import Yarmproxy.ConfigFile
import Yarmproxy.Transition

/-! # Reloading the clusters

`ReloadCulsters` empties the cluster list of the running configuration and reads the file again,
with the lines that have nothing to do with clusters passed over. Its handler does with a line what
the format of the file says, and what it does with a whole file follows. -/
namespace Yarmproxy
namespace Config

variable {makeAddress : Bytes → Option UInt32}

/-- The first eight characters of the context are `/cluster`. -/
def inCluster (c : Config) : Bool := insideCluster c.context

def skips (c : Config) (tokens : List Bytes) : Bool :=
  if c.context = [] then tokens.headD [] ≠ ascii "cluster" else !c.inCluster

instance : LawfulBEq Bytes := inferInstanceAs (LawfulBEq (List UInt8))

/-- The line changes `clusters_.back()`. -/
def writesBack (makeAddress : Bytes → Option UInt32) (c : Config) (tokens : List Bytes) : Bool :=
  c.inCluster && (applyTokens makeAddress c tokens).2 &&
    (tokens.headD [] ∈ [ascii "protocol", ascii "namespace", ascii "backend"])

/-- The handler of `ReloadCulsters`; `none` when `back()` is asked of an empty vector. -/
def reloadTokens (makeAddress : Bytes → Option UInt32) (c : Config) (tokens : List Bytes) :
    Option (Config × Bool) :=
  if c.skips tokens then some (c, true)
  else if c.clusters = [] ∧ writesBack makeAddress c tokens then none
  else some (applyTokens makeAddress c tokens)

/-- `TraverseConfFile` with that handler. -/
def reloadLines (makeAddress : Bytes → Option UInt32) :
    Config → List Bytes → Option (Config × Bool)
  | c, [] => some (c, true)
  | c, line :: lines =>
    match tokenizeLine line none with
    | [] => reloadLines makeAddress c lines
    | tokens =>
      match reloadTokens makeAddress c tokens with
      | none => none
      | some (c, true) => reloadLines makeAddress c lines
      | some (c, false) => some (c, false)

/-- `ReloadCulsters`; a file that cannot be opened is `none`. -/
def reloadCulsters (makeAddress : Bytes → Option UInt32) (c : Config) :
    Option (List Bytes) → Option (Config × Bool)
  | none => some ({ c with clusters := [] }, false)
  | some lines => reloadLines makeAddress { c with clusters := [] } lines

/-- The configuration after a line that says `e`. -/
def enter (c : Config) : Entry → Config
  | .aside => c
  | .cluster => { c with clusters := c.clusters ++ [Cluster.new] }.pushSubcontext (ascii "cluster")
  | .close => c.popSubcontext
  | .backends => c.pushSubcontext (ascii "backends")
  | .protocol p => c.modifyBack ({ · with protocol := p })
  | .namespaces names => c.modifyBack fun cl => { cl with namespaces := cl.namespaces ++ names }
  | .backend b => c.modifyBack fun cl => { cl with backends := cl.backends ++ [b] }

section Line
variable {c : Config} {words : List Bytes} {e : Entry}

def Refuses (c : Config) (x : Config × Bool) : Prop :=
  ∃ msg, x = ({ c with errorMsg := msg }, false)

theorem context_ne_nil (hin : c.inCluster = true) : c.context ≠ [] := by
  intro hnil
  rw [inCluster, hnil] at hin
  cases hin

theorem applyGlobalTokens_cluster (values : List Bytes) :
    c.applyGlobalTokens (ascii "cluster" :: values) =
      if values = [ascii "\x7b"] then
        ({ c with clusters := c.clusters ++ [Cluster.new] }.pushSubcontext (ascii "cluster"), true)
      else ({ c with errorMsg := ascii "unknown directive " ++ ascii "cluster" }, false) := by
  match values with
  | [] => rfl
  | [value] =>
    have hne : ∀ name ∈ ["listen", "daemonize", "pid_file", "backlog", "worker_threads",
        "client_idle_timeout", "socket_rw_timeout", "max_namespace_length", "log_file", "log_level",
        "worker"], ascii "cluster" ≠ ascii name := by decide
    simp only [applyGlobalTokens, List.mem_cons, List.not_mem_nil, or_false, forall_eq_or_imp,
      forall_eq] at hne ⊢
    simp [hne]
  | _ :: _ :: _ => simp [applyGlobalTokens]

theorem not_skips (hs : c.skips words = false) :
    (c.context = [] ∧ ∃ values, words = ascii "cluster" :: values) ∨ c.inCluster = true := by
  rw [Config.skips] at hs
  split at hs
  next hc =>
    refine .inl ⟨hc, ?_⟩
    cases words with
    | nil => exact absurd hs (by decide)
    | cons name values => exact ⟨values, by simpa using hs⟩
  next => exact .inr (by simpa using hs)

theorem applyTokens_inCluster (hc : c.inCluster = true) :
    applyTokens makeAddress c words = applyClusterTokens makeAddress c words := by
  rw [Config.inCluster] at hc
  rw [applyTokens]
  split
  next h =>
    rw [h] at hc
    cases hc
  next block rest h =>
    rw [h] at hc
    exact if_pos hc

theorem applyBackend_parts {host port weight : Bytes} {address : UInt32} {p w : ℤ}
    (colon : ch ':' ∉ host) (addressed : makeAddress host = some address)
    (port_eq : stoi port = some p) (weight_eq : stoi weight = some w) (hp : 0 < p) (hw : 0 < w) :
    applyBackend makeAddress c (host ++ ch ':' :: port) weight =
      (c.enter (.backend ⟨address, p, w.toNat⟩), true) := by
  have hpos : (host ++ ch ':' :: port).findIdx? (· == ch ':') = some host.length := by
    rw [List.findIdx?_append, List.findIdx?_eq_none_iff.mpr]
    · simp [List.findIdx?_cons]
    · intro b hb
      simpa using ne_of_mem_of_not_mem hb colon
  have hdrop : (host ++ ch ':' :: port).drop (host.length + 1) = port := by
    rw [List.drop_append]
    simp
  rw [applyBackend, hpos]
  simp only [List.take_left, hdrop, addressed, port_eq, weight_eq]
  rw [if_neg (by omega)]
  rfl

theorem applyBackend_cases (endpoint weight : Bytes) :
    (∃ host port address p w, endpoint = host ++ ch ':' :: port ∧ ch ':' ∉ host ∧
      makeAddress host = some address ∧ stoi port = some p ∧ stoi weight = some w ∧ 0 < p ∧ 0 < w) ∨
    Refuses c (applyBackend makeAddress c endpoint weight) := by
  unfold applyBackend
  cases hpos : endpoint.findIdx? (· == ch ':') with
  | none => exact .inr ⟨_, rfl⟩
  | some pos =>
    obtain ⟨hlt, hcolon, hfront⟩ := List.findIdx?_eq_some_iff_getElem.mp hpos
    simp only
    split
    next address port haddress hport =>
      split
      · exact .inr ⟨_, rfl⟩
      next w hw =>
        split
        · exact .inr ⟨_, rfl⟩
        next hvalues =>
          refine .inl ⟨_, _, address, port, w, ?_, ?_, haddress, hport, hw, by omega, by omega⟩
          · rw [← beq_iff_eq.mp hcolon, ← List.drop_eq_getElem_cons, List.take_append_drop]
          · intro hmem
            obtain ⟨i, hi, hget⟩ := List.mem_take_iff_getElem.mp hmem
            exact absurd (hfront i (by omega)) (by simp [hget])
    · exact .inr ⟨_, rfl⟩

theorem applyClusterTokens_of_line
    (h : Says makeAddress c.maxNamespaceLength c.context words e) (hin : c.inCluster = true) :
    applyClusterTokens makeAddress c words = (c.enter e, true) := by
  have hctx := context_ne_nil hin
  have hin' : insideCluster c.context = true := hin
  have hne : ∀ name ∈ ["protocol", "namespace", "backends", "backend"],
      ascii name ≠ ascii "\x7d" := by decide
  have hp : ∀ name ∈ ["namespace", "backends", "backend"], ascii name ≠ ascii "protocol" := by
    decide
  have hn : ∀ name ∈ ["backends", "backend"], ascii name ≠ ascii "namespace" := by decide
  have hb : ascii "backend" ≠ ascii "backends" := by decide
  have hr : ascii "memcached" ≠ ascii "redis" := by decide
  simp only [List.forall_mem_cons, List.not_mem_nil, IsEmpty.forall_iff, implies_true, and_true]
    at hne hp hn
  cases h with
  | aside outside => simp [hin'] at outside
  | cluster outermost => exact absurd outermost hctx
  | close => simp [applyClusterTokens, hctx, enter]
  | redis => simp [applyClusterTokens, hne, enter]
  | memcached => simp [applyClusterTokens, hne, hr, enter]
  | @namespaces names _ nonempty fit =>
    have hfit : (names.any fun ns => decide (ns.length > intToSize c.maxNamespaceLength)) =
        false := by
      rw [List.any_eq_false]
      intro ns hns
      simpa using fit ns hns
    simp [applyClusterTokens, hne, hp, nonempty, hfit, enter]
  | backends => simp [applyClusterTokens, hne, hp, hn, enter]
  | backend place colon addressed port weight hport hweight =>
    simp only [applyClusterTokens, hne, hp, hn, hb, place, false_and, if_false, if_true]
    exact applyBackend_parts colon addressed port weight hport hweight

theorem applyClusterTokens_cases (makeAddress : Bytes → Option UInt32) (hin : c.inCluster = true)
    (words : List Bytes) :
    (∃ e, Says makeAddress c.maxNamespaceLength c.context words e) ∨
      Refuses c (applyClusterTokens makeAddress c words) := by
  have hin' : insideCluster c.context = true := hin
  unfold applyClusterTokens
  match words with
  | [] => exact .inr ⟨_, rfl⟩
  | name :: values =>
    simp only
    split
    next h =>
      obtain ⟨rfl, rfl⟩ := h
      exact .inl ⟨_, .close hin'⟩
    split
    next hname =>
      subst hname
      match values with
      | [value] =>
        simp only
        split
        next h =>
          subst h
          exact .inl ⟨_, .redis hin'⟩
        split
        next h =>
          subst h
          exact .inl ⟨_, .memcached hin'⟩
        · exact .inr ⟨_, rfl⟩
      | [] => exact .inr ⟨_, rfl⟩
      | _ :: _ :: _ => exact .inr ⟨_, rfl⟩
    split
    next hname =>
      subst hname
      split
      · exact .inr ⟨_, rfl⟩
      next hvalues =>
        split
        · exact .inr ⟨_, rfl⟩
        next hlong =>
          refine .inl ⟨_, .namespaces hin' hvalues fun ns hns => ?_⟩
          simp only [List.any_eq_true, decide_eq_true_eq, not_exists, not_and, Nat.not_lt] at hlong
          exact hlong ns hns
    split
    next hname =>
      subst hname
      split
      next h =>
        subst h
        exact .inl ⟨_, .backends hin'⟩
      · exact .inr ⟨_, rfl⟩
    split
    next hname =>
      subst hname
      split
      next hplace =>
        match values with
        | [endpoint, weight] =>
          rcases applyBackend_cases (c := c) endpoint weight with
            ⟨host, port, address, p, w, rfl, colon, addressed, hport, hweight, hp, hw⟩ | hr
          · exact .inl ⟨_, .backend hplace colon addressed hport hweight hp hw⟩
          · exact .inr hr
        | [] => exact .inr ⟨_, rfl⟩
        | [_] => exact .inr ⟨_, rfl⟩
        | _ :: _ :: _ :: _ => exact .inr ⟨_, rfl⟩
      · exact .inr ⟨_, rfl⟩
    · exact .inr ⟨_, rfl⟩

theorem applyGlobalTokens_cases (values : List Bytes) :
    values = [ascii "\x7b"] ∨ Refuses c (c.applyGlobalTokens (ascii "cluster" :: values)) := by
  rw [applyGlobalTokens_cluster]
  split
  next h => exact .inl h
  next => exact .inr ⟨_, rfl⟩

theorem skips_iff : c.skips words = true ↔
    insideCluster c.context = false ∧ (c.context = [] → words.head? ≠ some (ascii "cluster")) := by
  rw [skips, inCluster]
  by_cases hc : c.context = []
  · cases words with
    | nil => simp [hc, insideCluster]; decide
    | cons name values => simp [hc, insideCluster]
  · simp [hc]

theorem writesBack_of_line (h : Says makeAddress c.maxNamespaceLength c.context words e)
    (hin : c.inCluster = true) : writesBack makeAddress c words = e.fills := by
  rw [writesBack, hin, applyTokens_inCluster hin, applyClusterTokens_of_line h hin, Bool.true_and,
    Bool.true_and]
  cases h with
  | aside outside => exact absurd (hin.symm.trans outside) (by decide)
  | cluster outermost => exact absurd outermost (context_ne_nil hin)
  | close => decide
  | redis => decide
  | memcached => decide
  | namespaces => simp [Entry.fills]
  | backends => decide
  | backend => simp [Entry.fills]

theorem reloadTokens_of_line (h : Says makeAddress c.maxNamespaceLength c.context words e) :
    reloadTokens makeAddress c words =
      if c.clusters = [] ∧ e.fills then none else some (c.enter e, true) := by
  rw [reloadTokens]
  by_cases hin : c.inCluster = true
  · have hskip : ¬ c.skips words = true := by
      rw [skips_iff]
      exact fun hs => absurd (hin.symm.trans hs.1) (by decide)
    rw [if_neg hskip, writesBack_of_line h hin, applyTokens_inCluster hin,
      applyClusterTokens_of_line h hin]
  have hout : insideCluster c.context = false := Bool.not_eq_true _ ▸ hin
  cases h with
  | aside outside other => simp [skips_iff.mpr ⟨outside, other⟩, Entry.fills, enter]
  | cluster outermost =>
    have hskip : ¬ c.skips [ascii "cluster", ascii "\x7b"] = true := by
      rw [skips_iff]
      exact fun hs => hs.2 outermost rfl
    rw [if_neg hskip, writesBack, inCluster, hout]
    simp [applyTokens, outermost, applyGlobalTokens_cluster, Entry.fills, enter]
  | close inside => exact absurd inside hin
  | redis inside => exact absurd inside hin
  | memcached inside => exact absurd inside hin
  | namespaces inside => exact absurd inside hin
  | backends inside => exact absurd inside hin
  | backend place =>
    rw [place] at hout
    exact absurd hout (by decide)

theorem reloadTokens_cases (makeAddress : Bytes → Option UInt32) (words : List Bytes) :
    (∃ e, Says makeAddress c.maxNamespaceLength c.context words e) ∨
      ∃ x, reloadTokens makeAddress c words = some x ∧ Refuses c x := by
  by_cases hs : c.skips words = true
  · exact .inl ⟨_, .aside (skips_iff.mp hs).1 (skips_iff.mp hs).2⟩
  rw [reloadTokens, if_neg hs]
  have refused : ∀ x, Refuses c x → applyTokens makeAddress c words = x →
      ∃ y, (if c.clusters = [] ∧ writesBack makeAddress c words = true then none
        else some (applyTokens makeAddress c words)) = some y ∧ Refuses c y := by
    rintro x ⟨msg, rfl⟩ hx
    rw [writesBack, hx, if_neg (by simp)]
    exact ⟨_, rfl, msg, rfl⟩
  rcases not_skips (Bool.not_eq_true _ ▸ hs) with ⟨hc, values, rfl⟩ | hin
  · rcases applyGlobalTokens_cases (c := c) values with rfl | hr
    · exact .inl ⟨_, .cluster hc⟩
    · exact .inr (refused _ hr (by rw [applyTokens, hc]))
  · rcases applyClusterTokens_cases makeAddress hin words with he | hr
    · exact .inl he
    · exact .inr (refused _ hr (applyTokens_inCluster hin))

end Line

def reloadWords (makeAddress : Bytes → Option UInt32) :
    Config → List (List Bytes) → Option (Config × Bool)
  | c, [] => some (c, true)
  | c, words :: lines => (reloadTokens makeAddress c words).bind fun x =>
      if x.2 then reloadWords makeAddress x.1 lines else some x

def enterAll (c : Config) (es : List Entry) : Config := es.foldl enter c

def extended (es : List Entry) (cl : Cluster) : Cluster where
  protocol := (es.flatMap Entry.protocols).getLast?.getD cl.protocol
  namespaces := cl.namespaces ++ es.flatMap Entry.names
  backends := cl.backends ++ es.flatMap Entry.members

section File
variable {c : Config} {e : Entry} {es : List Entry} {lines : List (List Bytes)}

theorem reloadLines_eq (lines : List Bytes) : ∀ c : Config,
    reloadLines makeAddress c lines = reloadWords makeAddress c (wordsOf lines) := by
  induction lines with
  | nil => exact fun c => rfl
  | cons line lines ih =>
    intro c
    rw [reloadLines, wordsOf, List.map_cons]
    cases tokenizeLine line none with
    | nil => exact ih c
    | cons name values =>
      rw [List.filter_cons_of_pos (by simp), ← wordsOf, reloadWords]
      simp only
      cases reloadTokens makeAddress c (name :: values) with
      | none => rfl
      | some x =>
        obtain ⟨c', ok⟩ := x
        cases ok with
        | true => exact ih c'
        | false => rfl

@[simp] theorem enter_context : (c.enter e).context = e.blocksAfter c.context := by
  cases e <;> rfl

@[simp] theorem enter_settings : (c.enter e).settings = c.settings := by
  cases e <;> rfl

@[simp] theorem enter_maxNamespaceLength :
    (c.enter e).maxNamespaceLength = c.maxNamespaceLength := by
  cases e <;> rfl

@[simp] theorem enterAll_cons : c.enterAll (e :: es) = (c.enter e).enterAll es := rfl

@[simp] theorem enterAll_context (es : List Entry) : ∀ c : Config,
    (c.enterAll es).context = blocksAfter c.context es := by
  induction es with
  | nil => exact fun c => rfl
  | cons e es ih => exact fun c => by rw [enterAll_cons, ih, enter_context]; rfl

@[simp] theorem enterAll_settings (es : List Entry) : ∀ c : Config,
    (c.enterAll es).settings = c.settings := by
  induction es with
  | nil => exact fun c => rfl
  | cons e es ih => exact fun c => by rw [enterAll_cons, ih, enter_settings]

theorem maxNamespaceLength_of_settings {c d : Config} (h : c.settings = d.settings) :
    c.maxNamespaceLength = d.maxNamespaceLength := by
  have := congrArg Config.maxNamespaceLength h
  exact this

theorem modifyBack_clusters {init : List Cluster} {back : Cluster} (h : c.clusters = init ++ [back])
    (f : Cluster → Cluster) : (c.modifyBack f).clusters = init ++ [f back] := by
  simp [modifyBack, h]

theorem enter_ne_nil (h : c.clusters ≠ [] ∨ e = .cluster) : (c.enter e).clusters ≠ [] := by
  rcases h with h | rfl
  · obtain ⟨init, back, hb⟩ := (List.eq_nil_or_concat c.clusters).resolve_left h
    rw [List.concat_eq_append] at hb
    cases e with
    | aside => exact h
    | cluster => simp [enter, pushSubcontext]
    | close => exact h
    | backends => exact h
    | protocol p => simp [enter, modifyBack_clusters hb]
    | namespaces names => simp [enter, modifyBack_clusters hb]
    | backend b => simp [enter, modifyBack_clusters hb]
  · simp [enter, pushSubcontext]

theorem extended_cons (cl : Cluster) : extended (e :: es) cl = extended es (extended [e] cl) := by
  simp [extended]

def extendBack (es : List Entry) (cs : List Cluster) : List Cluster :=
  cs.dropLast ++ cs.getLast?.toList.map (extended es)

theorem extendBack_nil (cs : List Cluster) : extendBack [] cs = cs := by
  rcases List.eq_nil_or_concat cs with rfl | ⟨init, back, rfl⟩ <;> simp [extendBack, extended]

theorem extendBack_cons (cs : List Cluster) :
    extendBack (e :: es) cs = extendBack es (extendBack [e] cs) := by
  rcases List.eq_nil_or_concat cs with rfl | ⟨init, back, rfl⟩
  · rfl
  · simp [extendBack, ← extended_cons]

theorem enter_clusters (h : e ≠ .cluster) : (c.enter e).clusters = extendBack [e] c.clusters := by
  cases e with
  | cluster => exact absurd rfl h
  | aside => exact (extendBack_nil _).symm
  | close => exact (extendBack_nil _).symm
  | backends => exact (extendBack_nil _).symm
  | protocol p =>
    simp [enter, modifyBack, extendBack, extended, Entry.protocols, Entry.names, Entry.members]
  | namespaces names =>
    simp [enter, modifyBack, extendBack, extended, Entry.protocols, Entry.names, Entry.members]
  | backend b =>
    simp [enter, modifyBack, extendBack, extended, Entry.protocols, Entry.names, Entry.members]

theorem enterAll_clusters (es : List Entry) : ∀ c : Config, (c.enterAll es).clusters =
    extendBack (es.takeWhile (· ≠ .cluster)) c.clusters ++ declaredClusters es := by
  induction es with
  | nil => exact fun c => by rw [List.takeWhile_nil, extendBack_nil]; exact (List.append_nil _).symm
  | cons e es ih =>
    intro c
    rw [enterAll_cons, ih]
    by_cases he : e = .cluster
    · subst he
      rw [List.takeWhile_cons_of_neg (by simp), extendBack_nil, declaredClusters]
      simp [enter, pushSubcontext, extendBack]
      rfl
    · rw [List.takeWhile_cons_of_pos (by simpa using he), extendBack_cons, enter_clusters he]
      cases e with
      | cluster => exact absurd rfl he
      | _ => rfl

theorem enterAll_clusters_of_nil (h : c.clusters = []) :
    (c.enterAll es).clusters = declaredClusters es := by
  rw [enterAll_clusters, h]
  rfl

theorem reloadWords_append {bound : ℤ} {blocks : List Bytes} {front : List (List Bytes)}
    (h : Reads makeAddress bound blocks front es) (rest : List (List Bytes)) : ∀ c : Config,
    c.context = blocks → c.maxNamespaceLength = bound → c.clusters ≠ [] ∨ Grounded es →
    reloadWords makeAddress c (front ++ rest) = reloadWords makeAddress (c.enterAll es) rest := by
  induction h with
  | nil => exact fun c _ _ _ => rfl
  | @cons blocks words lines e es hline _ ih =>
    intro c hctx hbound hg
    subst hctx hbound
    have hback : ¬ (c.clusters = [] ∧ e.fills = true) := by
      rintro ⟨hnil, hfills⟩
      rw [((hg.resolve_left (not_not.mpr hnil)).of_cons).1] at hfills
      cases hfills
    have hg' : (c.enter e).clusters ≠ [] ∨ Grounded es := by
      rcases hg with hne | hg
      · exact .inl (enter_ne_nil (.inl hne))
      · exact hg.of_cons.2.imp_left fun he => enter_ne_nil (.inr he)
    rw [List.cons_append, reloadWords, reloadTokens_of_line hline, if_neg hback]
    exact ih (c.enter e) enter_context enter_maxNamespaceLength hg'

theorem reads_of_reloadWords (lines : List (List Bytes)) : ∀ {c : Config} {x : Config × Bool},
    reloadWords makeAddress c lines = some x →
    ∃ es, (c.clusters ≠ [] ∨ Grounded es) ∧
      (Reads makeAddress c.maxNamespaceLength c.context lines es ∧ x = (c.enterAll es, true) ∨
        Stops makeAddress c.maxNamespaceLength c.context lines es ∧ Refuses (c.enterAll es) x) := by
  induction lines with
  | nil =>
    rintro c x ⟨⟩
    exact ⟨[], .inr fun e he => (by cases he), .inl ⟨.nil, rfl⟩⟩
  | cons words lines ih =>
    intro c x h
    rw [reloadWords] at h
    rcases reloadTokens_cases makeAddress (c := c) words with ⟨e, hline⟩ | ⟨y, hy, hr⟩
    · rw [reloadTokens_of_line hline] at h
      split at h
      next => cases h
      next hback =>
        obtain ⟨es, hg, hread⟩ := ih h
        rw [enter_maxNamespaceLength, enter_context] at hread
        refine ⟨e :: es, ?_, ?_⟩
        · by_cases hnil : c.clusters = []
          · refine .inr (.cons (by simpa [hnil] using hback) ?_)
            by_cases he : e = .cluster
            · exact .inl he
            · rw [enter_clusters he, hnil] at hg
              exact .inr (hg.resolve_left fun hne => hne rfl)
          · exact .inl hnil
        · rcases hread with ⟨hreads, hx⟩ | ⟨⟨front, line, rest, hlines, hreads, hno⟩, hx⟩
          · exact .inl ⟨.cons hline hreads, hx⟩
          · exact .inr
              ⟨⟨words :: front, line, rest, by rw [hlines]; rfl, .cons hline hreads, hno⟩, hx⟩
    · have hno : ∀ e, ¬ Says makeAddress c.maxNamespaceLength c.context words e := by
        intro e hline
        obtain ⟨msg, rfl⟩ := hr
        rw [reloadTokens_of_line hline] at hy
        split at hy
        · cases hy
        · cases (Prod.mk.inj (Option.some.inj hy)).2
      rw [hy] at h
      obtain ⟨msg, rfl⟩ := hr
      cases h
      exact ⟨[], .inr fun e he => (by cases he),
        .inr ⟨⟨[], words, lines, rfl, .nil, hno⟩, msg, rfl⟩⟩

theorem reloadWords_of_stops (h : Stops makeAddress c.maxNamespaceLength c.context lines es)
    (hg : c.clusters ≠ [] ∨ Grounded es) :
    ∃ x, reloadWords makeAddress c lines = some x ∧ Refuses (c.enterAll es) x := by
  obtain ⟨front, line, rest, rfl, hreads, hno⟩ := h
  rw [reloadWords_append hreads _ c rfl rfl hg, reloadWords]
  have hbound := congrArg Config.maxNamespaceLength (enterAll_settings es c)
  rw [← enterAll_context,
    ← show (c.enterAll es).maxNamespaceLength = c.maxNamespaceLength from hbound] at hno
  obtain ⟨e, hline⟩ | ⟨x, hx, msg, rfl⟩ :=
    reloadTokens_cases makeAddress (c := c.enterAll es) line
  · exact absurd hline (hno e)
  · exact ⟨_, by rw [hx]; rfl, msg, rfl⟩

theorem reloadCulsters_settings {file : Option (List Bytes)} {x : Config × Bool}
    (h : reloadCulsters makeAddress c file = some x) : x.1.settings = c.settings := by
  cases file with
  | none =>
    cases h
    rfl
  | some lines =>
    rw [reloadCulsters, reloadLines_eq] at h
    obtain ⟨es, -, ⟨-, rfl⟩ | ⟨-, msg, rfl⟩⟩ := reads_of_reloadWords _ h
    · exact enterAll_settings es { c with clusters := [] }
    · exact enterAll_settings es { c with clusters := [] }

end File

/-- The reload succeeds or leaves the clusters and the open blocks as they were. -/
def Intact (makeAddress : Bytes → Option UInt32) (c : Config) (file : Option (List Bytes)) : Prop :=
  ∃ c' ok, reloadCulsters makeAddress c file = some (c', ok) ∧
    (ok = false → c'.clusters = c.clusters ∧ c'.context = c.context)

/-- Every line is one of the format, or the lines in front of the first that is not declare just the
clusters there are and close what they open. -/
def Harmless (makeAddress : Bytes → Option UInt32) (c : Config) : Option (List Bytes) → Prop
  | none => c.clusters = []
  | some lines => ∃ es, Grounded es ∧
      (Reads makeAddress c.maxNamespaceLength c.context (wordsOf lines) es ∨
        Stops makeAddress c.maxNamespaceLength c.context (wordsOf lines) es ∧
          declaredClusters es = c.clusters ∧ blocksAfter c.context es = c.context)

/-- Harmless, and not ended inside a block. -/
def Careful (makeAddress : Bytes → Option UInt32) (c : Config) (file : Option (List Bytes)) :
    Prop :=
  Harmless makeAddress c file ∧ ∀ lines es, file = some lines →
    Reads makeAddress c.maxNamespaceLength c.context (wordsOf lines) es →
    blocksAfter c.context es = []

def reloading (makeAddress : Bytes → Option UInt32) :
    Transition.System Config (Option (List Bytes)) where
  Enabled c file := (reloadCulsters makeAddress c file).isSome
  next c file := ((reloadCulsters makeAddress c file).map Prod.fst).getD c

section Failed
variable {c : Config} {file : Option (List Bytes)}

theorem intact_iff_harmless : Intact makeAddress c file ↔ Harmless makeAddress c file := by
  cases file with
  | none =>
    constructor
    · rintro ⟨c', ok, hr, hkeep⟩
      cases hr
      exact (hkeep rfl).1.symm
    · exact fun h => ⟨_, _, rfl, fun _ => ⟨h.symm, rfl⟩⟩
  | some lines =>
    rw [Intact, reloadCulsters, reloadLines_eq]
    constructor
    · rintro ⟨c', ok, hr, hkeep⟩
      obtain ⟨es, hg, hread⟩ := reads_of_reloadWords _ hr
      refine ⟨es, hg.resolve_left fun hne => hne rfl, hread.imp And.left ?_⟩
      rintro ⟨hstop, msg, hx⟩
      cases hx
      obtain ⟨hcl, hctx⟩ := hkeep rfl
      exact ⟨hstop, (enterAll_clusters_of_nil rfl).symm.trans hcl,
        (enterAll_context es { c with clusters := [] }).symm.trans hctx⟩
    · rintro ⟨es, hg, hreads | ⟨hstop, hcl, hctx⟩⟩
      · have hr := reloadWords_append hreads [] { c with clusters := [] } rfl rfl (.inr hg)
        rw [List.append_nil] at hr
        exact ⟨_, _, hr, nofun⟩
      · obtain ⟨x, hr, msg, rfl⟩ :=
          reloadWords_of_stops (c := { c with clusters := [] }) hstop (.inr hg)
        exact ⟨_, _, hr, fun _ => ⟨(enterAll_clusters_of_nil rfl).trans hcl,
          (enterAll_context es { c with clusters := [] }).trans hctx⟩⟩

theorem reloading_next {x : Config × Bool} (h : reloadCulsters makeAddress c file = some x) :
    (reloading makeAddress).next c file = x.1 := by
  simp [reloading, h]

theorem careful_run {c₀ : Config} (h₀ : c₀.context = [])
    (hrun : Transition.Execution (reloading makeAddress) (Careful makeAddress) c₀ c) :
    c.context = [] ∧ c.settings = c₀.settings := by
  refine hrun.invariant (I := fun c => c.context = [] ∧ c.settings = c₀.settings) ⟨h₀, rfl⟩ ?_
  rintro v file ⟨hv, hs⟩ henabled ⟨hharmless, hclosed⟩
  obtain ⟨⟨c', ok⟩, hx⟩ := Option.isSome_iff_exists.mp henabled
  rw [reloading_next hx]
  refine ⟨?_, (reloadCulsters_settings hx).trans hs⟩
  obtain ⟨c'', ok', hr, hkeep⟩ := intact_iff_harmless.mpr hharmless
  cases hx.symm.trans hr
  cases file with
  | none =>
    cases hx
    exact hv
  | some lines =>
    rw [reloadCulsters, reloadLines_eq] at hx
    obtain ⟨es, -, ⟨hreads, hx⟩ | ⟨-, msg, hx⟩⟩ := reads_of_reloadWords _ hx
    · cases hx
      exact (enterAll_context es { v with clusters := [] }).trans (hclosed lines es rfl hreads)
    · cases hx
      exact (hkeep rfl).2.trans hv

/-- A reload leaves the configuration intact exactly when the file is harmless, and after careful
attempts a file of the format that closes its blocks is loaded as it declares. -/
theorem reload_intact_iff (makeAddress : Bytes → Option UInt32) :
    (∀ c file, Intact makeAddress c file ↔ Harmless makeAddress c file) ∧
    ∀ c₀ c, c₀.context = [] →
      Transition.Execution (reloading makeAddress) (Careful makeAddress) c₀ c →
      ∀ lines es, Reads makeAddress c₀.maxNamespaceLength [] (wordsOf lines) es →
        blocksAfter [] es = [] →
        ∃ c', reloadCulsters makeAddress c (some lines) = some (c', true) ∧
          c'.clusters = declaredClusters es ∧ c'.context = [] := by
  refine ⟨fun c file => intact_iff_harmless, fun c₀ c h₀ hrun lines es hreads hclosed => ?_⟩
  obtain ⟨hc, hs⟩ := careful_run h₀ hrun
  have hr := reloadWords_append hreads [] { c with clusters := [] } hc
    (maxNamespaceLength_of_settings hs) (.inr (hreads.grounded rfl))
  rw [List.append_nil] at hr
  refine ⟨_, (reloadLines_eq lines _).trans hr, enterAll_clusters_of_nil rfl, ?_⟩
  exact (enterAll_context es _).trans (hc.symm ▸ hclosed)

end Failed

/-- One cluster, in a file that ends well. -/
def goodFile : List Bytes := [ascii "cluster \x7b", ascii "protocol redis", ascii "\x7d"]

theorem goodFile_reads (makeAddress : Bytes → Option UInt32) (bound : ℤ) :
    Reads makeAddress bound [] (wordsOf goodFile) [.cluster, .protocol .redis, .close] := by
  have hwords : wordsOf goodFile =
      [[ascii "cluster", ascii "\x7b"], [ascii "protocol", ascii "redis"], [ascii "\x7d"]] := by
        decide
  rw [hwords]
  exact .cons (.cluster rfl) (.cons (.redis rfl) (.cons (.close rfl) .nil))

/-- The same cluster with a misspelt protocol. -/
def badFile : List Bytes := [ascii "cluster \x7b", ascii "protocol radis", ascii "\x7d"]

def anyAddress (_ : Bytes) : Option UInt32 := some 0

/-- The configuration after `goodFile` has been loaded. -/
def goodConfig : Config := { new with clusters := [⟨.redis, [], []⟩] }

theorem goodFile_reloaded :
    Intact anyAddress goodConfig (some goodFile) ∧
      ∃ c', reloadCulsters anyAddress goodConfig (some goodFile) = some (c', true) ∧
        c'.clusters = goodConfig.clusters ∧ c'.context = [] := by
  have h := reload_intact_iff anyAddress
  have hreads := goodFile_reads anyAddress 4
  exact ⟨(h.1 _ _).mpr ⟨_, hreads.grounded rfl, .inl hreads⟩,
    h.2 goodConfig goodConfig rfl .refl goodFile _ hreads rfl⟩

/-- After the bad file the old cluster is gone and the block of the new one is still open, so
that the good file, which is of the format, is refused at its first line. -/
theorem badFile_sticks :
    ∃ c c', reloadCulsters anyAddress goodConfig (some badFile) = some (c, false) ∧
      c.clusters = [.new] ∧ c.context = [ascii "cluster"] ∧
      ¬ Intact anyAddress goodConfig (some badFile) ∧
      Reads anyAddress goodConfig.maxNamespaceLength [] (wordsOf goodFile)
        [.cluster, .protocol .redis, .close] ∧
      reloadCulsters anyAddress c (some goodFile) = some (c', false) ∧ c'.clusters = [] := by
  have hbad : reloadCulsters anyAddress goodConfig (some badFile) = some
      ({ goodConfig with
        clusters := [.new], context := [ascii "cluster"], errorMsg :=
          ascii "unsupported protocol type" },
        false) := by
    decide +kernel
  refine ⟨_, { goodConfig with
    clusters := [], context := [ascii "cluster"], errorMsg := ascii "unsupported protocol type" },
    hbad, rfl, rfl, ?_, goodFile_reads _ _, by decide +kernel, rfl⟩
  rintro ⟨c', ok, hr, hkeep⟩
  rw [hbad] at hr
  obtain ⟨rfl, rfl⟩ := Prod.mk.inj (Option.some.inj hr)
  exact absurd (hkeep rfl).1 (by decide)

def names (cs : List Cluster) : List Bytes := cs.flatMap (·.namespaces)

section Names
variable {c : Config} {words : List Bytes} {e : Entry}

theorem mem_names_enter (he : e ≠ .cluster) (hne : c.clusters ≠ []) {ns : Bytes} :
    ns ∈ names (c.enter e).clusters ↔ ns ∈ names c.clusters ∨ ns ∈ e.names := by
  obtain ⟨init, back, hb⟩ := (List.eq_nil_or_concat c.clusters).resolve_left hne
  rw [enter_clusters he, hb]
  simp [extendBack, names, extended, or_assoc]

theorem blocksAfter_inside {blocks : List Bytes} (h : insideCluster blocks = true) :
    e.blocksAfter blocks = [] ∨ insideCluster (e.blocksAfter blocks) = true := by
  match blocks with
  | [] => cases h
  | block :: rest =>
    cases e with
    | close =>
      cases rest with
      | nil => exact .inl rfl
      | cons _ _ => exact .inr h
    | _ => exact .inr h

theorem enter_frame (c : Config) (e : Entry) :
    c.enter e = { c with clusters := (c.enter e).clusters, context := (c.enter e).context } := by
  cases e <;> rfl

theorem line_of_accepted {c' : Config} (hin : c.inCluster = true)
    (h : applyTokens makeAddress c words = (c', true)) :
    ∃ e, Says makeAddress c.maxNamespaceLength c.context words e ∧ e ≠ .cluster ∧
      c' = c.enter e := by
  rw [applyTokens_inCluster hin] at h
  rcases applyClusterTokens_cases makeAddress hin words with ⟨e, hline⟩ | ⟨msg, hr⟩
  · rw [applyClusterTokens_of_line hline hin] at h
    refine ⟨e, hline, ?_, (Prod.mk.inj h).1.symm⟩
    rintro rfl
    cases hline with
    | cluster outermost => exact context_ne_nil hin outermost
  · cases (Prod.mk.inj (hr.symm.trans h)).2

end Names

/-- A line that changes no cluster and leaves the context, or makes it `other`. -/
structure Aside (other : List Bytes) (c : Config) (x : Config × Bool) : Prop where
  clusters : x.1.clusters = c.clusters
  context : x.1.context = c.context ∨ x.1.context = other

section Aside
variable {c : Config} {tokens other : List Bytes}

namespace Aside

theorem same {x : Config × Bool} (hc : x.1.clusters = c.clusters) (hx : x.1.context = c.context) :
    Aside other c x :=
  ⟨hc, .inl hx⟩

theorem ite {p : Prop} [Decidable p] {x y : Config × Bool} (hx : Aside other c x)
    (hy : Aside other c y) :
    Aside other c (if p then x else y) := by
  split
  · exact hx
  · exact hy

theorem int {value : Bytes} {msg : String} {set : ℤ → Config}
    (hc : ∀ i, (set i).clusters = c.clusters) (hx : ∀ i, (set i).context = c.context) :
    Aside other c (c.applyInt value msg set) := by
  rw [applyInt]
  split
  · exact same (hc _) (hx _)
  · exact same rfl rfl

end Aside

theorem applyGlobalTokens_aside (hne : tokens.headD [] ≠ ascii "cluster") :
    Aside (c.context ++ [ascii "worker"]) c (c.applyGlobalTokens tokens) := by
  unfold applyGlobalTokens
  split
  next name value =>
    have hcl : ¬ (name = ascii "cluster" ∧ value = ascii "\x7b") := fun h => hne h.1
    rw [if_neg hcl]
    refine .ite (.same rfl rfl) <| .ite (.same rfl rfl) <| .ite (.same rfl rfl) <|
      .ite (.int (fun _ => rfl) fun _ => rfl) <| .ite (.int (fun _ => rfl) fun _ => rfl) <|
      .ite (.int (fun _ => rfl) fun _ => rfl) <| .ite (.int (fun _ => rfl) fun _ => rfl) <|
      .ite ?_ <| .ite (.same rfl rfl) <| .ite (.same rfl rfl) ?_
    · split
      · exact .ite (.same rfl rfl) (.same rfl rfl)
      · exact .same rfl rfl
    · split
      next hw => exact ⟨rfl, .inr (by rw [hw.1]; rfl)⟩
      next => exact .same rfl rfl
  next => exact .same rfl rfl

theorem applyWorkerTokens_aside : Aside c.context.dropLast c (c.applyWorkerTokens tokens) := by
  unfold applyWorkerTokens
  split
  next name value =>
    refine .ite (.int (fun _ => rfl) fun _ => rfl) <| .ite (.same rfl rfl) <| .ite ?_ <|
      .ite ?_ (.same rfl rfl)
    all_goals
      cases stoi value with
      | none => exact .same rfl rfl
      | some sz => exact .ite (.same rfl rfl) (.same rfl rfl)
  next => exact .ite (.ite (.same rfl rfl) ⟨rfl, .inr rfl⟩) (.same rfl rfl)

theorem applyWorkerTokens_head (h : (c.applyWorkerTokens tokens).2 = true) :
    tokens.headD [] ≠ ascii "cluster" := by
  have hne : ∀ name ∈ ["max_idle_backends", "cpu_affinity", "buffer_size", "reserved_buffer_space"],
      ascii "cluster" ≠ ascii name := by decide
  simp only [List.mem_cons, List.not_mem_nil, or_false, forall_eq_or_imp, forall_eq] at hne
  intro hhead
  unfold applyWorkerTokens at h
  split at h
  next name value =>
    obtain rfl : name = ascii "cluster" := hhead
    simp [hne, fail] at h
  next =>
    split at h
    next ht =>
      rw [ht] at hhead
      exact absurd hhead (by decide)
    next => cases h

end Aside

def Tracked (s : Config) : Prop :=
  s.context = [] ∨ s.context = [ascii "worker"] ∨ s.inCluster = true ∧ s.clusters ≠ []

/-- The reload of configuration `c` when the first reading stands at `s`: the worker block is
not seen. -/
def followed (c s : Config) : Config :=
  { c with clusters := s.clusters, context := if s.inCluster then s.context else [] }

section Follow
variable {c s s' : Config} {tokens : List Bytes}

theorem followed_of_not_inCluster (h : s.inCluster = false) :
    followed c s = { c with clusters := s.clusters, context := [] } := by
  rw [followed, h]
  rfl

theorem inCluster_of_context (h : s.context = [] ∨ s.context = [ascii "worker"]) :
    s.inCluster = false := by
  rw [inCluster]
  rcases h with h | h
  · rw [h]
    rfl
  · rw [h]
    decide

theorem applyTokens_worker (hc : s.context = [ascii "worker"]) :
    applyTokens makeAddress s tokens = s.applyWorkerTokens tokens := by
  have hpre : (ascii "cluster").isPrefixOf (ascii "worker") = false := by decide
  simp [applyTokens, hc, hpre]

theorem follow_aside {other : List Bytes} {x : Config × Bool} (h : Aside other s x)
    (hctx : s.context = [] ∨ s.context = [ascii "worker"])
    (hctx' : x.1.context = [] ∨ x.1.context = [ascii "worker"])
    (hhead : tokens.headD [] ≠ ascii "cluster") :
    reloadTokens makeAddress (followed c s) tokens = some (followed c x.1, true) := by
  rw [followed_of_not_inCluster (inCluster_of_context hctx),
    followed_of_not_inCluster (inCluster_of_context hctx'), h.clusters, reloadTokens]
  exact if_pos (by rw [skips, if_pos rfl]; exact decide_eq_true hhead)

theorem followed_enter {e : Entry} (hctx : (followed c s).context = s.context)
    (hafter : (followed c (s.enter e)).context = (s.enter e).context) :
    (followed c s).enter e = followed c (s.enter e) := by
  have hcl : ((followed c s).enter e).clusters = (s.enter e).clusters := by
    cases e <;> rfl
  rw [enter_frame (followed c s), hcl, enter_context, hctx, ← enter_context, ← hafter]
  rfl

theorem follow_cluster {e : Entry}
    (hline : Says makeAddress s.maxNamespaceLength s.context tokens e)
    (hin : s.inCluster = true) (hne : s.clusters ≠ [])
    (hfit : ∀ ns ∈ e.names, ns.length ≤ intToSize c.maxNamespaceLength) :
    reloadTokens makeAddress (followed c s) tokens = some (followed c (s.enter e), true) := by
  have hctx : (followed c s).context = s.context := if_pos hin
  have hafter : (followed c (s.enter e)).context = (s.enter e).context := by
    rw [followed, inCluster, enter_context]
    rcases blocksAfter_inside (e := e) hin with hout | hin'
    · rw [hout]
      rfl
    · rw [if_pos hin']
  have hline' : Says makeAddress (followed c s).maxNamespaceLength
      (followed c s).context tokens e :=
    hctx ▸ hline.of_fits hfit
  rw [reloadTokens_of_line hline', if_neg fun hb => hne hb.1, followed_enter hctx hafter]

theorem follow_open {values : List Bytes} (hc : s.context = [])
    (h : applyTokens makeAddress s (ascii "cluster" :: values) = (s', true)) :
    s' = s.enter .cluster ∧
      reloadTokens makeAddress (followed c s) (ascii "cluster" :: values) =
        some (followed c s', true) := by
  have hglobal : s.applyGlobalTokens (ascii "cluster" :: values) = (s', true) := by
    rw [← h, applyTokens, hc]
  rw [applyGlobalTokens_cluster] at hglobal
  split at hglobal
  next hv =>
    subst hv
    obtain rfl : s.enter .cluster = s' := (Prod.mk.inj hglobal).1
    have hctx : (followed c s).context = [] := by rw [followed, inCluster, hc]; rfl
    have hafter : (followed c (s.enter .cluster)).context = (s.enter .cluster).context := by
      have hin : insideCluster (Entry.blocksAfter [] .cluster) = true := by decide
      rw [followed, inCluster, enter_context, hc]
      rw [if_pos hin]
    rw [reloadTokens_of_line (.cluster hctx), followed_enter (hctx.trans hc.symm) hafter]
    exact ⟨rfl, if_neg fun hb => by cases hb.2⟩
  next => cases (Prod.mk.inj hglobal).2

theorem follow_line (ht : Tracked s) (h : applyTokens makeAddress s tokens = (s', true)) :
    Tracked s' ∧ names s.clusters ⊆ names s'.clusters ∧
      ((∀ ns ∈ names s'.clusters, ns.length ≤ intToSize c.maxNamespaceLength) →
        reloadTokens makeAddress (followed c s) tokens = some (followed c s', true)) := by
  rcases ht with hc | hc | ⟨hin, hne⟩
  · by_cases hhead : tokens.headD [] = ascii "cluster"
    · obtain ⟨values, rfl⟩ : ∃ values, tokens = ascii "cluster" :: values := by
        cases tokens with
        | nil => exact absurd hhead (by decide)
        | cons name values => exact ⟨values, by rw [← hhead]; rfl⟩
      obtain ⟨rfl, hreload⟩ := follow_open (c := c) hc h
      refine ⟨.inr (.inr ⟨?_, enter_ne_nil (.inr rfl)⟩), ?_, fun _ => hreload⟩
      · rw [inCluster, enter_context, hc]
        decide
      · simp [enter, pushSubcontext, names]
    · have haside : Aside [ascii "worker"] s (s', true) := by
        have haside := applyGlobalTokens_aside (c := s) hhead
        rw [hc] at haside
        rw [← h, applyTokens, hc]
        exact haside
      have hctx : s'.context = [] ∨ s'.context = [ascii "worker"] := hc ▸ haside.context
      refine ⟨hctx.imp_right .inl, ?_, fun _ => follow_aside haside (.inl hc) hctx hhead⟩
      rw [haside.clusters]
      exact List.Subset.refl _
  · rw [applyTokens_worker hc] at h
    have haside : Aside s.context.dropLast s (s', true) := h ▸ applyWorkerTokens_aside
    have hhead : tokens.headD [] ≠ ascii "cluster" := applyWorkerTokens_head (by rw [h])
    have hctx : s'.context = [] ∨ s'.context = [ascii "worker"] := by
      have := haside.context
      rw [hc] at this
      exact this.symm
    refine ⟨hctx.imp_right .inl, ?_, fun _ => follow_aside haside (.inr hc) hctx hhead⟩
    rw [haside.clusters]
    exact List.Subset.refl _
  · obtain ⟨e, hline, he, rfl⟩ := line_of_accepted hin h
    have hmem : ∀ {ns}, ns ∈ names (s.enter e).clusters ↔ ns ∈ names s.clusters ∨ ns ∈ e.names :=
      mem_names_enter he hne
    refine ⟨?_, fun _ hns => hmem.mpr (.inl hns), fun hfit => ?_⟩
    · rw [Tracked, inCluster, enter_context]
      exact (blocksAfter_inside hin).imp_right fun hin' => .inr ⟨hin', enter_ne_nil (.inl hne)⟩
    · exact follow_cluster hline hin hne fun ns hns => hfit ns (hmem.mpr (.inr hns))

theorem follow_lines (lines : List Bytes) : ∀ {s : Config}, Tracked s →
    traverse (applyTokens makeAddress) s lines = (s', true) →
    names s.clusters ⊆ names s'.clusters ∧
      ((∀ ns ∈ names s'.clusters, ns.length ≤ intToSize c.maxNamespaceLength) →
        reloadLines makeAddress (followed c s) lines = some (followed c s', true)) := by
  induction lines with
  | nil =>
    intro s _ h
    obtain rfl := (Prod.mk.inj h).1
    exact ⟨List.Subset.refl _, fun _ => rfl⟩
  | cons line lines ih =>
    intro s ht h
    rw [traverse] at h
    rw [reloadLines]
    generalize tokenizeLine line none = tokens at h ⊢
    cases tokens with
    | nil => exact ih ht h
    | cons name values =>
      simp only at h ⊢
      split at h
      next s₁ hline =>
        obtain ⟨ht₁, hsub, hreload⟩ := follow_line (c := c) ht hline
        obtain ⟨hsub', hrest⟩ := ih ht₁ h
        refine ⟨fun _ hns => hsub' (hsub hns), fun hfit => ?_⟩
        rw [hreload fun ns hns => hfit ns (hsub' hns)]
        exact hrest hfit
      next => cases h

theorem reload_fits {lines : List Bytes} {r : Config}
    (h : reloadCulsters makeAddress c (some lines) = some (r, true)) :
    ∀ ns ∈ names r.clusters, ns.length ≤ intToSize c.maxNamespaceLength := by
  rw [reloadCulsters, reloadLines_eq] at h
  obtain ⟨es, -, ⟨hreads, hr⟩ | ⟨-, msg, hr⟩⟩ := reads_of_reloadWords _ h
  · cases hr
    rw [enterAll_clusters_of_nil rfl]
    intro ns hns
    obtain ⟨cl, hcl, hns⟩ := List.mem_flatMap.mp hns
    obtain ⟨e, he, hns⟩ := mem_names_of_declared hcl hns
    exact hreads.fits e he ns hns
  · cases hr

/-- A reload of the file a configuration was loaded from gives the same clusters and settings
exactly when every namespace fits the bound that the file ends with. -/
theorem reload_agrees_iff {lines : List Bytes} (h : initializeFrom makeAddress lines = (c, true))
    (hclosed : c.context = []) :
    (∃ c', reloadCulsters makeAddress c (some lines) = some (c', true) ∧
        c'.clusters = c.clusters ∧ c'.settings = c.settings) ↔
      ∀ cl ∈ c.clusters, ∀ ns ∈ cl.namespaces, (ns.length : ℤ) ≤ c.maxNamespaceLength := by
  have hbound := Loaded.wellformed ⟨lines, h⟩ |>.maxNamespaceLength
  have hsize : intToSize c.maxNamespaceLength = c.maxNamespaceLength.toNat := by
    unfold intToSize
    omega
  have hnames : (∀ ns ∈ names c.clusters, ns.length ≤ intToSize c.maxNamespaceLength) ↔
      ∀ cl ∈ c.clusters, ∀ ns ∈ cl.namespaces, (ns.length : ℤ) ≤ c.maxNamespaceLength := by
    simp only [names, List.mem_flatMap, hsize]
    constructor
    · intro hfit cl hcl ns hns
      have := hfit ns ⟨cl, hcl, hns⟩
      omega
    · rintro hfit ns ⟨cl, hcl, hns⟩
      have := hfit cl hcl ns hns
      omega
  rw [← hnames]
  constructor
  · rintro ⟨c', hr, hcl, -⟩
    rw [← hcl]
    exact reload_fits hr
  · intro hfit
    have hout : c.inCluster = false := inCluster_of_context (.inl hclosed)
    have hstart : followed c new = { c with clusters := [] } := by
      rw [followed_of_not_inCluster (by rfl), hclosed]
      rfl
    have hend : followed c c = c := by rw [followed_of_not_inCluster hout, ← hclosed]
    have hread := (follow_lines lines (.inl rfl : Tracked new) h).2 hfit
    rw [hstart, hend] at hread
    exact ⟨c, hread, rfl, rfl⟩

end Follow

/-- A namespace that was short enough when its line was read. -/
def shrinkingBound : List Bytes :=
  [ascii "cluster \x7b", ascii "protocol redis", ascii "namespace abc", ascii "\x7d",
    ascii "max_namespace_length 2"]

def shrunkConfig : Config :=
  { new with clusters := [⟨.redis, [ascii "abc"], []⟩], maxNamespaceLength := 2 }

theorem shrinkingBound_refused :
    initializeFrom anyAddress shrinkingBound = (shrunkConfig, true) ∧ shrunkConfig.context = [] ∧
      ∃ c', reloadCulsters anyAddress shrunkConfig (some shrinkingBound) = some (c', false) ∧
        c'.clusters = [⟨.redis, [], []⟩] ∧ c'.context = [ascii "cluster"] := by
  refine ⟨by decide +kernel, rfl, { shrunkConfig with
    clusters := [⟨.redis, [], []⟩], context := [ascii "cluster"],
    errorMsg := ascii "too long namespace length" }, by decide +kernel, rfl, rfl⟩

/-- Global lines, a worker block and a cluster. -/
def workerFile : List Bytes :=
  [ascii "max_namespace_length 8", ascii "worker \x7b", ascii "max_idle_backends 2", ascii "\x7d",
    ascii "cluster \x7b", ascii "protocol redis", ascii "namespace abc", ascii "\x7d"]

def workerConfig : Config :=
  { new with
    clusters := [⟨.redis, [ascii "abc"], []⟩], maxNamespaceLength := 8, workerMaxIdleBackends := 2 }

theorem workerFile_reloaded :
    initializeFrom anyAddress workerFile = (workerConfig, true) ∧
      ∃ c', reloadCulsters anyAddress workerConfig (some workerFile) = some (c', true) ∧
        c'.clusters = workerConfig.clusters ∧ c'.settings = workerConfig.settings := by
  have h : initializeFrom anyAddress workerFile = (workerConfig, true) := by decide +kernel
  exact ⟨h, (reload_agrees_iff h rfl).mpr (by decide)⟩

end Config
end Yarmproxy
