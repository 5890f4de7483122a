import TscServer.Model.ConfigParser

/-!
# The config handler

`ConfigHandler` of `config_handler.cc`: the statements of a parsed configuration fill the tables of
`config_opts.h`.
-/

namespace TscServer.Model
open Lib

structure ConfigOpts where
  port : Bytes := bytes "8080"
  address : Bytes := bytes "0.0.0.0"
  threadCount : Int := 10
  staticFileUriPrefixes : List Bytes := []
  staticFileConfig : List NginxConfig := []
  echoUriPrefixes : List Bytes := []
  statusUriPrefixes : List Bytes := []
  proxyUriPrefixes : List Bytes := []
  proxyConfig : List NginxConfig := []
  pythonUriPrefixes : List Bytes := []
  pythonConfig : List NginxConfig := []

structure ConfigHandler where
  configOpt : ConfigOpts := {}
  checkDuplicatePath : List Bytes := []

/-- The code returns `false`, or does not return. -/
inductive Refusal where
  | invalid
  | fault (fault : Fault)
deriving DecidableEq, Repr

inductive StartTokenType where
  | port
  | path
  | server
  | root
  | default
  | thread
  | invalid
deriving DecidableEq, Repr

namespace ConfigHandler

def maxPort : Int := 65535

def toTokenType (token : Bytes) : StartTokenType :=
  if token = bytes "port" then .port
  else if token = bytes "path" then .path
  else if token = bytes "server" then .server
  else if token = bytes "root" then .root
  else if token = bytes "thread" then .thread
  else if token = bytes "default" then .default
  else .invalid

def handlePort (tokens : List Bytes) (handler : ConfigHandler) : Except Refusal ConfigHandler :=
  match tokens with
  | [_, port] =>
      match stoi port with
      | .error .invalidArgument => .error .invalid
      | .error .outOfRange => .error (.fault .outOfRange)  -- only `invalid_argument` is caught
      | .ok portNum =>
          if portNum ≤ maxPort ∧ 0 ≤ portNum then
            .ok { handler with configOpt := { handler.configOpt with port } }
          else .error .invalid
  | _ => .error .invalid

def handleThread (tokens : List Bytes) (handler : ConfigHandler) : Except Refusal ConfigHandler :=
  match tokens with
  | [_, count] =>
      match lexicalCastInt count with
      | none => .error .invalid
      | some threadCount =>
          if 0 < threadCount then
            .ok { handler with configOpt := { handler.configOpt with threadCount } }
          else .error .invalid
  | _ => .error .invalid

def addPath (uriPrefix handlerName : Bytes) (childBlock : Option (List NginxConfigStatement))
    (opts : ConfigOpts) : Except Refusal ConfigOpts :=
  if handlerName = bytes "EchoHandler" then
    match childBlock with
    | none => .ok { opts with echoUriPrefixes := opts.echoUriPrefixes ++ [uriPrefix] }
    | some _ => .error .invalid
  else if handlerName = bytes "StatusHandler" then
    -- a child block is reported, and the statement accepted
    .ok { opts with statusUriPrefixes := opts.statusUriPrefixes ++ [uriPrefix] }
  else if handlerName = bytes "StaticHandler" then
    match childBlock with
    | none => .error .invalid
    | some statements =>
        .ok
          { opts with
            staticFileUriPrefixes := opts.staticFileUriPrefixes ++ [uriPrefix]
            staticFileConfig := opts.staticFileConfig ++ [{ statements }] }
  else if handlerName = bytes "PythonHandler" then
    match childBlock with
    | none => .error .invalid
    | some statements =>
        .ok
          { opts with
            pythonUriPrefixes := opts.pythonUriPrefixes ++ [uriPrefix]
            pythonConfig := opts.pythonConfig ++ [{ statements }] }
  else if handlerName = bytes "ProxyHandler" then
    match childBlock with
    | none => .error .invalid
    | some statements =>
        .ok
          { opts with
            proxyUriPrefixes := opts.proxyUriPrefixes ++ [uriPrefix]
            proxyConfig := opts.proxyConfig ++ [{ statements }] }
  else .ok opts  -- no branch for any other name

def handlePath (tokens : List Bytes) (childBlock : Option (List NginxConfigStatement))
    (handler : ConfigHandler) : Except Refusal ConfigHandler :=
  match tokens with
  | [_, uriPrefix, handlerName] =>
      if handler.checkDuplicatePath.any (· = uriPrefix) then .error .invalid
      else
        match uriPrefix.getLast? with
        | none => .error (.fault .indeterminateValue)
        | some back =>
            if back = 47 ∧ uriPrefix ≠ bytes "/" then .error .invalid
            else
              (addPath uriPrefix handlerName childBlock handler.configOpt).map fun configOpt =>
                { configOpt, checkDuplicatePath := handler.checkDuplicatePath ++ [uriPrefix] }
  | _ => .error .invalid

mutual

def handleStatement : NginxConfigStatement → ConfigHandler → Except Refusal ConfigHandler
  | .mk [] _, _ => .error (.fault .indeterminateValue)
  | .mk (tokenStart :: arguments) childBlock, handler =>
      match toTokenType tokenStart, childBlock with
      | .port, _ => handlePort (tokenStart :: arguments) handler
      | .path, childBlock => handlePath (tokenStart :: arguments) childBlock handler
      | .server, none => .error .invalid
      | .server, some statements => handleStatements statements handler
      | .thread, _ => handleThread (tokenStart :: arguments) handler
      | _, _ => .error .invalid

def handleStatements : List NginxConfigStatement → ConfigHandler → Except Refusal ConfigHandler
  | [], handler => .ok handler
  | statement :: statements, handler =>
      match handleStatement statement handler with
      | .ok handler => handleStatements statements handler
      | .error refusal => .error refusal

end

def handleConfig (text : Bytes) : Except Refusal ConfigHandler :=
  match NginxConfig.parse text with
  | none => .error .invalid
  | some config => handleStatements config.statements {}

end ConfigHandler
end TscServer.Model
