import Sharpvpn.Vpn.Bypass

/-!
# Whether the tear-down undoes the start-up

`delete_chnroute` asks the kernel to remove rows that it builds anew. It removes the routes of
the tunnel with the default device, never the host route of the server, and nothing at all
without a file.
-/

namespace Sharpvpn

/-- The kernel finds the row for a request by these fields. -/
def Rtentry.Same (row request : Rtentry) : Prop :=
  row.dst = request.dst ∧ row.mask = request.mask ∧ row.gateway = request.gateway ∧
    row.dev = request.dev

instance (row request : Rtentry) : Decidable (row.Same request) :=
  inferInstanceAs (Decidable (_ ∧ _ ∧ _ ∧ _))

/-- What `SIOCDELRT` does: there may be no such row (`ESRCH`). -/
def removeRoute : Siocaddrt := fun request routes =>
  if ∃ row ∈ routes, row.Same request then .ok (routes.filter fun row => ¬row.Same request)
  else .error 3

namespace RouteTable

section

variable (siocdelrt : Siocaddrt)

def delRouteRow (row : RouteRow) (table : RouteTable) : RouteTable × Int :=
  match row.rtentry false with
  | none => (table, -1)
  | some route =>
      match siocdelrt { route with metric := 0 } table.routes with
      | .ok routes => ({ table with routes := routes }, 0)
      | .error errno => (table, if errno = 17 then 0 else -1)

/-- The loop over the lines in `delete_chnroute`. -/
def delChnroutes : List Bytes → Bytes → RouteRow → RouteTable → RouteTable
  | [], _, _, table => table
  | line :: rest, buf, row, table =>
      if line.length < 100 then
        let scanned := scanLine (storeLine line buf) row
        delChnroutes rest scanned.1 scanned.2 (table.delRouteRow siocdelrt scanned.2).1
      else table

/-- The server's address, the other argument of the source, is not looked at. -/
def deleteChnroute (buf : LineBuffer) (files : Bytes → Option Bytes) (filename : Bytes)
    (table : RouteTable) : RouteTable × Int :=
  if ¬table.modified then (table, 0)
  else if filename = [] then (table, 0)
  else
    let row : RouteRow :=
      { dst := ascii "0.0.0.0", netmaskSharp := 1, gateway := table.tunnelGateway,
        dev := table.defaultDev, netmask := ascii "128.0.0.0" }
    let table := (table.delRouteRow siocdelrt row).1
    let row := { row with dst := ascii "128.0.0.0" }
    let table := (table.delRouteRow siocdelrt row).1
    let row := { row with gateway := table.defaultGateway }
    match files filename with
    | none => (table, -1)
    | some content =>
        ({ table.delChnroutes siocdelrt (fileLines content) buf.1 row with modified := false }, 0)

end

end RouteTable

section Requests

/-- The kernel's table after a request. -/
def submit (ioctl : Siocaddrt) (routes : List Rtentry) (request : Rtentry) : List Rtentry :=
  match ioctl request routes with
  | .ok routes => routes
  | .error _ => routes

/-- The requests that the kernel does not refuse, the latest first. -/
def accepted (siocaddrt : Siocaddrt) : List Rtentry → List Rtentry → List Rtentry
  | [], _ => []
  | request :: rest, routes =>
      match siocaddrt request routes with
      | .ok routes => accepted siocaddrt rest routes ++ [request]
      | .error _ => accepted siocaddrt rest routes

/-- The rows that the loop over the lines of the file goes through. -/
def lineRows : List Bytes → Bytes → RouteRow → List RouteRow
  | [], _, _ => []
  | line :: rest, buf, row =>
      if line.length < 100 then
        let scanned := scanLine (storeLine line buf) row
        scanned.2 :: lineRows rest scanned.1 scanned.2
      else []

/-- Those of the file that is given, if it can be opened. -/
def fileRows (buf : LineBuffer) (files : Bytes → Option Bytes) (filename : Bytes)
    (row : RouteRow) : List RouteRow :=
  if filename = [] then []
  else ((files filename).map fun content => lineRows (fileLines content) buf.1 row).getD []

def RouteRow.server (defaultRoute : RouteRow) (remoteIp : Bytes) : RouteRow :=
  { defaultRoute with
    dst := remoteIp
    netmask := ascii "255.255.255.255"
    netmaskSharp := 32 }

/-- One of the two routes that cover every address. -/
def halfRow (dst : String) (gateway dev : Bytes) : RouteRow where
  dst := ascii dst
  netmask := ascii "128.0.0.0"
  netmaskSharp := 1
  gateway := gateway
  dev := dev

/-- What the start-up asks the kernel for. -/
def startUpRequests (defaultRoute : RouteRow) (buf : LineBuffer)
    (files : Bytes → Option Bytes) (filename host tunnelName tunnelGateway : Bytes) :
    List Rtentry :=
  (defaultRoute.server host).route true ::
    ((fileRows buf files filename (defaultRoute.server host)).map (·.route false) ++
      [(halfRow "0.0.0.0" tunnelGateway tunnelName).route false,
        (halfRow "128.0.0.0" tunnelGateway tunnelName).route false])

/-- What the tear-down after it asks the kernel to remove. -/
def tearDownRequests (defaultRoute : RouteRow) (buf : LineBuffer)
    (files : Bytes → Option Bytes) (filename tunnelGateway : Bytes) : List Rtentry :=
  if filename = [] then []
  else
    let row := halfRow "128.0.0.0" defaultRoute.gateway defaultRoute.dev
    ([halfRow "0.0.0.0" tunnelGateway defaultRoute.dev,
      halfRow "128.0.0.0" tunnelGateway defaultRoute.dev] ++
        fileRows buf files filename row).map fun row => { row.route false with metric := 0 }

theorem addRouteRow_eq (siocaddrt : Siocaddrt) (row : RouteRow) (host : Bool)
    (table : RouteTable) : (table.addRouteRow siocaddrt row host).1 =
      { table with routes := submit siocaddrt table.routes (row.route host) } := by
  unfold RouteTable.addRouteRow submit
  rw [rtentry_eq]
  dsimp only
  cases siocaddrt (row.route host) table.routes with
  | ok routes => rfl
  | error errno => rfl

theorem delRouteRow_eq (siocdelrt : Siocaddrt) (row : RouteRow) (table : RouteTable) :
    (table.delRouteRow siocdelrt row).1 =
      { table with
        routes := submit siocdelrt table.routes { row.route false with metric := 0 } } := by
  unfold RouteTable.delRouteRow submit
  rw [rtentry_eq]
  dsimp only
  cases siocdelrt { row.route false with metric := 0 } table.routes with
  | ok routes => rfl
  | error errno => rfl

theorem addChnroutes_eq (siocaddrt : Siocaddrt) (lines : List Bytes) (buf : Bytes)
    (row : RouteRow) (table : RouteTable) : table.addChnroutes siocaddrt lines buf row =
      { table with routes :=
        ((lineRows lines buf row).map (·.route false)).foldl (submit siocaddrt) table.routes } := by
  induction lines generalizing buf row table with
  | nil => rfl
  | cons line rest ih =>
      unfold RouteTable.addChnroutes lineRows
      split
      next => rw [ih, addRouteRow_eq, List.map_cons, List.foldl_cons]
      next => rfl

theorem delChnroutes_eq (siocdelrt : Siocaddrt) (lines : List Bytes) (buf : Bytes)
    (row : RouteRow) (table : RouteTable) : table.delChnroutes siocdelrt lines buf row =
      { table with routes := ((lineRows lines buf row).map fun row =>
        { row.route false with metric := 0 }).foldl (submit siocdelrt) table.routes } := by
  induction lines generalizing buf row table with
  | nil => rfl
  | cons line rest ih =>
      unfold RouteTable.delChnroutes lineRows
      split
      next => rw [ih, delRouteRow_eq, List.map_cons, List.foldl_cons]
      next => rfl

/-- A kernel that inserts what it does not refuse puts the accepted rows on top. -/
theorem foldl_submit_add {siocaddrt : Siocaddrt}
    (hinsert : ∀ request routes, siocaddrt request routes = .ok (request :: routes) ∨
      siocaddrt request routes = .error 17) (requests routes : List Rtentry) :
    requests.foldl (submit siocaddrt) routes = accepted siocaddrt requests routes ++ routes := by
  induction requests generalizing routes with
  | nil => rfl
  | cons request rest ih =>
      rw [List.foldl_cons, ih]
      rcases hinsert request routes with hok | herror
      · simp [submit, accepted, hok]
      · simp [submit, accepted, herror]

theorem submit_removeRoute (request : Rtentry) (routes : List Rtentry) :
    submit removeRoute routes request = routes.filter fun row => ¬row.Same request := by
  unfold submit removeRoute
  split
  next routes' hok =>
    split at hok
    next => exact (Except.ok.inj hok).symm
    next => cases hok
  next errno herror =>
    split at herror
    next => cases herror
    next hnone =>
      refine (List.filter_eq_self.mpr fun row hrow => ?_).symm
      exact decide_eq_true fun hsame => hnone ⟨row, hrow, hsame⟩

theorem foldl_submit_remove (requests routes : List Rtentry) :
    requests.foldl (submit removeRoute) routes =
      routes.filter fun row => ∀ request ∈ requests, ¬row.Same request := by
  induction requests generalizing routes with
  | nil => simp
  | cons request rest ih =>
      rw [List.foldl_cons, ih, submit_removeRoute, List.filter_filter]
      simp [Bool.and_comm]

/-- Filtering leaves just the lower rows of a table. -/
theorem filter_append_eq_right {α : Type} {p : α → Bool} (new old : List α) :
    (new ++ old).filter p = old ↔ (∀ row ∈ new, ¬p row) ∧ ∀ row ∈ old, p row := by
  constructor
  · intro heq
    have hold : ∀ row ∈ old, p row := by
      intro row hrow
      rw [← heq] at hrow
      exact (List.mem_filter.mp hrow).2
    rw [List.filter_append, List.filter_eq_self.mpr hold] at heq
    exact ⟨List.filter_eq_nil_iff.mp (List.append_left_eq_self.mp heq), hold⟩
  · rintro ⟨hnew, hold⟩
    rw [List.filter_append, List.filter_eq_nil_iff.mpr hnew, List.filter_eq_self.mpr hold,
      List.nil_append]

end Requests

section TearDown

variable {siocaddrt : Siocaddrt} {defaultRoute : RouteRow} {buf buf' : LineBuffer}
  {files : Bytes → Option Bytes} {filename host tunnelName tunnelGateway : Bytes}
  {table : RouteTable}

theorem setChnroute_eq : (table.setChnroute siocaddrt defaultRoute buf files filename host).1 =
    { table with
      modified := true
      defaultGateway := defaultRoute.gateway
      defaultDev := defaultRoute.dev
      routes := ((defaultRoute.server host).route true ::
        (fileRows buf files filename (defaultRoute.server host)).map (·.route false)).foldl
          (submit siocaddrt) table.routes } := by
  unfold RouteTable.setChnroute fileRows
  dsimp only
  rw [addRouteRow_eq]
  by_cases hname : filename = []
  · rw [if_pos hname, if_pos hname]
    rfl
  · rw [if_neg hname, if_neg hname]
    cases files filename with
    | none => rfl
    | some content =>
        dsimp only
        rw [addChnroutes_eq]
        rfl

theorem startUp_eq :
    table.startUp siocaddrt defaultRoute buf files filename host tunnelName tunnelGateway =
      { modified := true
        tunnelGateway := tunnelGateway
        defaultGateway := defaultRoute.gateway
        defaultDev := defaultRoute.dev
        routes := (startUpRequests defaultRoute buf files filename host tunnelName
          tunnelGateway).foldl (submit siocaddrt) table.routes } := by
  unfold RouteTable.startUp RouteTable.setDefaultAsTunnel startUpRequests
  dsimp only
  rw [setChnroute_eq, addRouteRow_eq, addRouteRow_eq, ← List.cons_append, List.foldl_append]
  rfl

theorem deleteChnroute_routes (hmodified : table.modified = true)
    (hgateway : table.defaultGateway = defaultRoute.gateway)
    (hdev : table.defaultDev = defaultRoute.dev) :
    (table.deleteChnroute removeRoute buf files filename).1.routes =
      (tearDownRequests defaultRoute buf files filename table.tunnelGateway).foldl
        (submit removeRoute) table.routes := by
  unfold RouteTable.deleteChnroute tearDownRequests fileRows
  rw [if_neg (by simp [hmodified])]
  by_cases hname : filename = []
  · rw [if_pos hname, if_pos hname]
    rfl
  · simp only [if_neg hname, delRouteRow_eq, delChnroutes_eq, hgateway, hdev]
    cases files filename with
    | none => rfl
    | some content => rfl

/-- The table is as it was just if no row of it is taken for one of the start-up, and every
row that the kernel accepted is named again. -/
theorem tearDown_restores_iff
    (hinsert : ∀ request routes, siocaddrt request routes = .ok (request :: routes) ∨
      siocaddrt request routes = .error 17) :
    ((table.startUp siocaddrt defaultRoute buf files filename host tunnelName
        tunnelGateway).deleteChnroute removeRoute buf' files filename).1.routes = table.routes ↔
      (∀ row ∈ accepted siocaddrt (startUpRequests defaultRoute buf files filename host
          tunnelName tunnelGateway) table.routes,
        ∃ request ∈ tearDownRequests defaultRoute buf' files filename tunnelGateway,
          row.Same request) ∧
      ∀ row ∈ table.routes,
        ∀ request ∈ tearDownRequests defaultRoute buf' files filename tunnelGateway,
          ¬row.Same request := by
  rw [startUp_eq, deleteChnroute_routes rfl rfl rfl, foldl_submit_add hinsert,
    foldl_submit_remove, filter_append_eq_right]
  simp

end TearDown

/-- A kernel that refuses just the rows it has. -/
def addRoute : Siocaddrt := fun request routes =>
  if ∃ row ∈ routes, row.Same request then .error 17 else .ok (request :: routes)

theorem addRoute_insert (request : Rtentry) (routes : List Rtentry) :
    addRoute request routes = .ok (request :: routes) ∨ addRoute request routes = .error 17 := by
  unfold addRoute
  split
  next => exact .inr rfl
  next => exact .inl rfl

/-- A start-up with a file of one network, and the tear-down after it. -/
def exampleTearDown (table : RouteTable) : RouteTable :=
  ((table.startUp addRoute (defaultRow (octetAddress 192 168 1 1) (ascii "eth0")) zeroBuffer
    (fun _ => some (ascii "1.0.1.0/24")) (ascii "chnroute.txt") (ascii "203.0.113.9")
    (ascii "tun0") (ascii "10.7.0.1")).deleteChnroute removeRoute zeroBuffer
    (fun _ => some (ascii "1.0.1.0/24")) (ascii "chnroute.txt")).1

/-- The rows that the tear-down forgets. -/
def leftRoutes : List Rtentry :=
  [tunnelRtentry 0x80 (octetAddress 10 7 0 1) (ascii "tun0"),
    tunnelRtentry 0 (octetAddress 10 7 0 1) (ascii "tun0"),
    ⟨octetAddress 203 0 113 9, octetAddress 192 168 1 1, 0xffffffff, true, 100, ascii "eth0"⟩]

/-- Where they are left over from an earlier run, a further one changes nothing. -/
theorem tearDown_restores_left :
    (exampleTearDown { routes := leftRoutes ++ exampleTable.routes }).routes =
      leftRoutes ++ exampleTable.routes := by
  unfold exampleTearDown
  apply (tearDown_restores_iff addRoute_insert).mpr
  decide +kernel

/-- The host route of the server and both routes of the tunnel stay. -/
theorem tearDown_leaves_routes :
    (exampleTearDown exampleTable).routes = leftRoutes ++ exampleTable.routes ∧
      (exampleTearDown exampleTable).routes ≠ exampleTable.routes := by
  decide +kernel

end Sharpvpn
