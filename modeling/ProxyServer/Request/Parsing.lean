import ProxyServer.ProxyParse.Accepted
import ProxyServer.Request.Routine

namespace ProxyServer

/-- What the request thread reads of the object that `ParsedRequest_parse` has filled. -/
def ParsedRequest.ofObject (pr : ProxyParse.ParsedRequest) : ParsedRequest where
  method := (pr.textAt pr.method).toOption.getD []
  host := pr.hostText
  path := pr.path
  version := (pr.textAt pr.version).toOption.getD []
  proxyAuthorization := ((ProxyParse.parsedHeaderGet pr (ascii "Proxy-Authorization")).bind
    (pr.headers[·]?)).map (·.value)

/-- A parse that leaves its blocks counts as one that fails. -/
def Parser.parsedRequest (errno : Int) (port : ProxyParse.Port) : Parser where
  parse buffer :=
    match ProxyParse.parsedRequestParse errno (ProxyParse.newRequest port) buffer with
    | .ok (0, pr) => some (.ofObject pr)
    | _ => none
  path_set := by
    intro request parsed accepted
    split at accepted
    · rename_i pr parsed
      cases accepted
      exact ProxyParse.path_of_accepted parsed
    · cases accepted

end ProxyServer
