import LayeredConfig.Kind
/-!
# Well-known options

The options that the library itself declares. Applications may declare any others.
-/
namespace LayeredConfig

/-- The declared options with their kinds, in ascending order of their paths. -/
def declaredOptions : List (String × Kind) :=
  [("advanced.auth-provider.credentials", .stringMap),
   ("advanced.connection.connect-timeout", .scalar .duration),
   ("advanced.connection.pool.local.size", .scalar .int),
   ("advanced.heartbeat.interval", .scalar .duration),
   ("advanced.protocol.max-frame-length", .scalar .bytes),
   ("advanced.reconnection-policy.base-delay", .scalar .duration),
   ("advanced.request.trace.enabled", .scalar .boolean),
   ("advanced.speculative-execution-policy.delays", .list .duration),
   ("basic.contact-points", .list .string),
   ("basic.load-balancing-policy.local-datacenter", .scalar .string),
   ("basic.request.consistency", .scalar .string),
   ("basic.request.default-idempotence", .scalar .boolean),
   ("basic.request.page-size", .scalar .int),
   ("basic.request.serial-consistency", .scalar .string),
   ("basic.request.timeout", .scalar .duration),
   ("basic.session-name", .scalar .string)]

def catalog : List OptionKey :=
  declaredOptions.filterMap fun o => (Path.ofText? o.1).map fun path => ⟨path, o.2⟩

end LayeredConfig
