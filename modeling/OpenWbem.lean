import OpenWbem.Hdb.Refinement
import OpenWbem.Repository.Locks
import OpenWbem.Repository.ClassHierarchy
import OpenWbem.Repository.ClassOrigins
import OpenWbem.Binary.Enumeration
import OpenWbem.Cim.PathRoundTrip
import OpenWbem.Monitor.Mediation
import OpenWbem.Http.DigestSoundness
import OpenWbem.Indications.Delivery
import OpenWbem.Http.TrustStore
import OpenWbem.Http.Responses
import OpenWbem.Repository.RestrictedQualifiers
import OpenWbem.Authorizers.AccessControl
import OpenWbem.Authorizers.Switch
import OpenWbem.Cim.Instances
import OpenWbem.Repository.ClassCreation
import OpenWbem.Hdb.HeldNodes
import OpenWbem.Cim.DateTime
import OpenWbem.Cim.PathEquality
import OpenWbem.Cim.DateTimeText
import OpenWbem.Cim.TypeNames
import OpenWbem.Indications.MainLoop
import OpenWbem.Indications.Polling
import OpenWbem.Wql.SelectStatement
import OpenWbem.Mof.ProcessClass
import OpenWbem.Http.Base64
import OpenWbem.Repository.LruCache
import OpenWbem.Monitor.PathCache
import OpenWbem.Assoc.InstanceEntries
