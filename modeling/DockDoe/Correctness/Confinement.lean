import DockDoe.Model.NodeClient

/-! When the requests that the hub relays stay at the host and the endpoint they are for. -/

namespace DockDoe

open UrlPaths PercentCoding

namespace Relay

/-- The container id or stack name of a relay. -/
def param : Relay → Text
  | .containerLogs id => id
  | .stackCompose name => name
  | .metricsContainer id _ => id
  | .metricsStack name _ => name
  | .historyContainer id _ => id
  | .historyStack name _ => name
  | .containerAction id _ => id
  | .stackAction name _ => name

/-- The path that a relay is for, segment by segment. -/
def segments (nodeHost : Text) (relay : Relay) : List Text :=
  ["host".toList, nodeHost, "api".toList]
  ++ match relay with
    | .containerLogs id => ["container".toList, id, "logs".toList]
    | .stackCompose name => ["stack".toList, name, "compose".toList]
    | .metricsContainer id _ => ["metrics".toList, "container".toList, id]
    | .metricsStack name _ => ["metrics".toList, "stack".toList, name]
    | .historyContainer id _ => ["history".toList, "container".toList, id]
    | .historyStack name _ => ["history".toList, "stack".toList, name]
    | .containerAction id action => ["container".toList, id, action.name]
    | .stackAction name action => ["stack".toList, name, action.name]

/-- The raw query that is relayed. -/
def query : Relay → Option Text
  | .metricsContainer _ query => query
  | .metricsStack _ query => query
  | .historyContainer _ query => query
  | .historyStack _ query => query
  | _ => none

/-- Whether the parameter is all that a relay's URL ends with. -/
def endsWithParam : Relay → Bool
  | .metricsContainer _ query => query.all List.isEmpty
  | .metricsStack _ query => query.all List.isEmpty
  | .historyContainer _ query => query.all List.isEmpty
  | .historyStack _ query => query.all List.isEmpty
  | _ => false

/-- What follows the path of a relay. -/
def behind (relay : Relay) : Text :=
  querySuffix relay.query

/-- A path of a kind of thing, one such thing and what is asked of it. -/
theorem join_kind {nodeHost kind param last fixed tail : Text}
    (before : fixed = '/' :: "api".toList ++ '/' :: kind ++ ['/']) (after : tail = '/' :: last)
    : "/host/".toList ++ nodeHost ++ (fixed ++ param ++ tail)
      = '/' :: ['/'].intercalate
          (["host".toList, nodeHost, "api".toList] ++ [kind, param, last]) := by
  have host : "/host/".toList = '/' :: "host".toList ++ ['/'] := rfl
  rw [before, after, host]
  simp only [List.intercalate_cons_cons, List.intercalate_singleton, List.append_assoc,
    List.cons_append, List.nil_append]

/-- A path of a group, a kind of thing and one such thing. -/
theorem join_group {nodeHost group kind param fixed : Text}
    (before : fixed = '/' :: "api".toList ++ '/' :: group ++ '/' :: kind ++ ['/'])
    : "/host/".toList ++ nodeHost ++ (fixed ++ param)
      = '/' :: ['/'].intercalate
          (["host".toList, nodeHost, "api".toList] ++ [group, kind, param]) := by
  have host : "/host/".toList = '/' :: "host".toList ++ ['/'] := rfl
  rw [before, host]
  simp only [List.intercalate_cons_cons, List.intercalate_singleton, List.append_assoc,
    List.cons_append, List.nil_append]

/-- The path of a relay is its segments under the node's host, by the cases of the relays. -/
theorem apiPath_eq (nodeHost : Text) (relay : Relay)
    : "/host/".toList ++ nodeHost ++ relay.apiPath
      = '/' :: ['/'].intercalate (relay.segments nodeHost) := by
  cases relay with
  | containerLogs id => exact join_kind rfl rfl
  | stackCompose name => exact join_kind rfl rfl
  | metricsContainer id query => exact join_group rfl
  | metricsStack name query => exact join_group rfl
  | historyContainer id query => exact join_group rfl
  | historyStack name query => exact join_group rfl
  | containerAction id action => exact join_kind rfl rfl
  | stackAction name action => exact join_kind rfl rfl

/-- The URL of a relay is the node's host, the relay's segments and its query, by the cases of
the relays.
-/
theorem url_eq {client : NodeClient} {nodeHost : Text} (resolved : client.nodeHost = some nodeHost)
    (relay : Relay)
    : relay.url client
      = .ok (client.base.text
          ++ '/' :: (['/'].intercalate (relay.segments nodeHost) ++ relay.behind)) := by
  have underHost
      : client.hostScoped relay.apiPath
        = .ok (client.base.text ++ '/' :: ['/'].intercalate (relay.segments nodeHost)) := by
    simp only [← apiPath_eq, NodeClient.hostScoped, resolved, List.append_assoc]
  have get (query : Option Text)
      : client.forwardGetUrl relay.apiPath query
        = .ok (client.base.text
            ++ '/' :: (['/'].intercalate (relay.segments nodeHost) ++ querySuffix query)) := by
    rw [NodeClient.forwardGetUrl, underHost, Except.map, List.append_assoc, List.cons_append]
  cases relay with
  | containerLogs id => exact get none
  | stackCompose name => exact get none
  | metricsContainer id query => exact get query
  | metricsStack name query => exact get query
  | historyContainer id query => exact get query
  | historyStack name query => exact get query
  | containerAction id action =>
      have nothing : behind (.containerAction id action) = [] := rfl
      rw [nothing, List.append_nil]
      exact underHost
  | stackAction name action =>
      have nothing : behind (.stackAction name action) = [] := rfl
      rw [nothing, List.append_nil]
      exact underHost

theorem isQuery_behind (relay : Relay) : IsQuery relay.behind := by
  rw [behind, querySuffix]
  split
  · exact Or.inr ⟨_, rfl⟩
  · exact Or.inl rfl

/-- A text whose last character would not be trimmed from a URL. -/
def EndsVisibly (s : Text) : Prop :=
  ∀ c ∈ s.getLast?, isC0OrSpace c = false

/-- A joined path ends as its last segment does, by induction on the segments between. -/
theorem endsVisibly_intercalate (first last : Text) (middle : List Text)
    : EndsVisibly (['/'].intercalate (first :: (middle ++ [last]))) ↔ EndsVisibly last := by
  induction middle generalizing first with
  | nil =>
      rw [List.nil_append, List.intercalate_cons_cons, List.intercalate_singleton]
      cases last with
      | nil => simp [EndsVisibly, isC0OrSpace]
      | cons c rest => simp [EndsVisibly, List.getLast?_append]
  | cons second more ih =>
      rw [← ih second, List.cons_append, List.intercalate_cons_cons]
      cases joined : ['/'].intercalate (second :: (more ++ [last])) with
      | nil => simp [EndsVisibly, isC0OrSpace]
      | cons c rest => simp [EndsVisibly, List.getLast?_append]

/-- An action is to start, to stop or to restart, as no other name is parsed as one. -/
theorem action_cases (action : ActionName)
    : action.name = "start".toList
      ∨ action.name = "stop".toList
      ∨ action.name = "restart".toList := by
  have parses := action.parses
  unfold Action.parse at parses
  split at parses
  next start => exact Or.inl start
  next =>
    split at parses
    next stop => exact Or.inr (Or.inl stop)
    next =>
      split at parses
      next restart => exact Or.inr (Or.inr restart)
      next => cases parses

theorem isPlain_action (action : ActionName)
    : isPlain action.name = true ∧ EndsVisibly action.name := by
  rcases action_cases action with name | name | name <;> rw [name]
  · exact ⟨by decide, by simp [EndsVisibly, isC0OrSpace]⟩
  · exact ⟨by decide, by simp [EndsVisibly, isC0OrSpace]⟩
  · exact ⟨by decide, by simp [EndsVisibly, isC0OrSpace]⟩

/-- The parameter of a relay is one plain segment, and does not end blankly with the URL. -/
def IsConfined (nodeHost : Text) (relay : Relay) : Prop :=
  isPlain nodeHost = true
  ∧ isPlain relay.param = true
  ∧ (relay.endsWithParam = true → EndsVisibly relay.param)

/-- A path that ends with a fixed text is of plain segments when host and parameter are, for all
the others are fixed ones.
-/
theorem plain_kind_iff {nodeHost kind param last : Text} {unended : Prop}
    (fixed : isPlain kind = true) (plain : isPlain last = true) (visible : EndsVisibly last)
    : ((∀ segment ∈ ["host".toList, nodeHost, "api".toList] ++ [kind, param, last],
          isPlain segment = true)
        ∧ (unended
          → EndsVisibly
              (['/'].intercalate
                (["host".toList, nodeHost, "api".toList] ++ [kind, param, last]))))
      ↔ isPlain nodeHost = true ∧ isPlain param = true := by
  have host : isPlain "host".toList = true := by decide
  have api : isPlain "api".toList = true := by decide
  have ends := endsVisibly_intercalate "host".toList last [nodeHost, "api".toList, kind, param]
  simp only [List.cons_append, List.nil_append] at ends ⊢
  simp only [ends, visible, List.forall_mem_cons, host, api, fixed, plain, List.not_mem_nil,
    false_implies, implies_true, and_true, true_and]

/-- A path that ends with its parameter is of plain segments when host and parameter are and,
unless a query follows, the parameter does not end in what parsing cuts off.
-/
theorem plain_group_iff {nodeHost group kind param : Text} {unended : Prop}
    (fixed : isPlain group = true) (plain : isPlain kind = true)
    : ((∀ segment ∈ ["host".toList, nodeHost, "api".toList] ++ [group, kind, param],
          isPlain segment = true)
        ∧ (unended
          → EndsVisibly
              (['/'].intercalate
                (["host".toList, nodeHost, "api".toList] ++ [group, kind, param]))))
      ↔ isPlain nodeHost = true ∧ isPlain param = true ∧ (unended → EndsVisibly param) := by
  have host : isPlain "host".toList = true := by decide
  have api : isPlain "api".toList = true := by decide
  have ends := endsVisibly_intercalate "host".toList param [nodeHost, "api".toList, group, kind]
  simp only [List.cons_append, List.nil_append] at ends ⊢
  simp only [ends, List.forall_mem_cons, host, api, fixed, plain, List.not_mem_nil,
    false_implies, implies_true, and_true, true_and, and_assoc]

theorem querySuffix_eq_nil_iff (query : Option Text)
    : querySuffix query = [] ↔ query.all List.isEmpty = true := by
  rcases query with _ | _ | ⟨c, rest⟩ <;> simp [querySuffix, Option.filter]

/-- A relay's segments are plain when it is confined, by the cases of the relays: some end with a
fixed text, some with the parameter, and some with a query.
-/
theorem segments_plain_iff (nodeHost : Text) (relay : Relay)
    : ((∀ segment ∈ relay.segments nodeHost, isPlain segment = true)
        ∧ (relay.behind = [] → EndsVisibly (['/'].intercalate (relay.segments nodeHost))))
      ↔ relay.IsConfined nodeHost := by
  have ended (query : Option Text) (param : Text)
      : (querySuffix query = [] → EndsVisibly param)
        ↔ (query.all List.isEmpty = true → EndsVisibly param) := by
    rw [querySuffix_eq_nil_iff]
  cases relay with
  | containerLogs id =>
      apply (plain_kind_iff (by decide) (by decide) _).trans
      · simp [IsConfined, endsWithParam, param]
      · simp [EndsVisibly, isC0OrSpace]
  | stackCompose name =>
      apply (plain_kind_iff (by decide) (by decide) _).trans
      · simp [IsConfined, endsWithParam, param]
      · simp [EndsVisibly, isC0OrSpace]
  | metricsContainer id query =>
      apply (plain_group_iff (by decide) (by decide)).trans
      exact and_congr_right (fun _ => and_congr_right (fun _ => ended query id))
  | metricsStack name query =>
      apply (plain_group_iff (by decide) (by decide)).trans
      exact and_congr_right (fun _ => and_congr_right (fun _ => ended query name))
  | historyContainer id query =>
      apply (plain_group_iff (by decide) (by decide)).trans
      exact and_congr_right (fun _ => and_congr_right (fun _ => ended query id))
  | historyStack name query =>
      apply (plain_group_iff (by decide) (by decide)).trans
      exact and_congr_right (fun _ => and_congr_right (fun _ => ended query name))
  | containerAction id action =>
      obtain ⟨plain, visible⟩ := isPlain_action action
      apply (plain_kind_iff (by decide) plain visible).trans
      simp [IsConfined, endsWithParam, param]
  | stackAction name action =>
      obtain ⟨plain, visible⟩ := isPlain_action action
      apply (plain_kind_iff (by decide) plain visible).trans
      simp [IsConfined, endsWithParam, param]

end Relay

/-- A relay asks for the path it is for exactly when its parameter and the node's host are plain
segments. Witness: parsing a URL only ever shortens its path or splits its segments, so a path
that is read as written was made of plain ones.
-/
theorem relay_confined_iff {client : NodeClient} {nodeHost : Text}
    (resolved : client.nodeHost = some nodeHost) (relay : Relay)
    : (∃ s url,
        relay.url client = .ok s
        ∧ UrlPaths.parse s = some url
        ∧ url.path.map decode = (relay.segments nodeHost).map asBytes)
      ↔ relay.IsConfined nodeHost := by
  have nonempty : relay.segments nodeHost ≠ [] := List.cons_ne_nil _ _
  apply Iff.trans _ (Relay.segments_plain_iff nodeHost relay)
  apply Iff.trans _ (decoded_path_iff client.base nonempty relay.isQuery_behind)
  constructor
  · intro h
    obtain ⟨s, url, sent, parsed, decoded⟩ := h
    rw [relay.url_eq resolved] at sent
    cases sent
    exact ⟨url, parsed, decoded⟩
  · intro h
    obtain ⟨url, parsed, decoded⟩ := h
    exact ⟨_, url, relay.url_eq resolved, parsed, decoded⟩

section Traversal

/-- A client of a node whose host is called `local`. -/
def localClient : NodeClient where
  base := {
    secure := false
    authority := "node:8080".toList
    nonempty := by decide
    clean := by simp [endsAuthority, isSeparator, endsPath, isC0OrSpace]
  }
  nodeHost := some "local".toList
  authHeader := none

/-- The logs of a container with a plain id are asked for as such. -/
theorem relay_confined_plain
    : ∃ s url,
        (Relay.containerLogs "c1".toList).url localClient = .ok s
        ∧ UrlPaths.parse s = some url
        ∧ url.path.map decode
          = ((Relay.containerLogs "c1".toList).segments "local".toList).map asBytes :=
  have resolved : localClient.nodeHost = some "local".toList := rfl
  (relay_confined_iff resolved (.containerLogs "c1".toList)).mpr
    ⟨by decide, by decide, fun ends => by cases ends⟩

/-- An id with dot segments asks for the logs of another host of the node. -/
theorem traversal_not_confined
    : ∃ s url,
        (Relay.containerLogs "../../../other/api/container/c1".toList).url localClient = .ok s
        ∧ UrlPaths.parse s = some url
        ∧ url.path
          = ["host".toList, "other".toList, "api".toList, "container".toList, "c1".toList,
              "logs".toList]
        ∧ url.path.map decode
          ≠ ((Relay.containerLogs "../../../other/api/container/c1".toList).segments
              "local".toList).map asBytes :=
  ⟨_, _, rfl, rfl, rfl, by decide⟩

end Traversal

end DockDoe
