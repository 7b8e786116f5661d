import ElanAgent.Session.Names
import ElanAgent.Session.Pipelines
import ElanAgent.Session.Consistency
import ElanAgent.Session.EndEffect
import ElanAgent.Session.SeenEffect
import ElanAgent.Session.Runs
import ElanAgent.Session.Consumer
import ElanAgent.Session.Indexes
import ElanAgent.Session.Frames
import ElanAgent.Session.Scores
import ElanAgent.Session.Recorded
import ElanAgent.Session.Tracker
import ElanAgent.Session.CheckEffect
import ElanAgent.Session.CurrentSessions
import ElanAgent.AccessControl.Nft
import ElanAgent.AccessControl.Configurator
import ElanAgent.AccessControl.Interfaces
import ElanAgent.Session.Interleaving
import ElanAgent.Session.Settled
import ElanAgent.Session.ParentIds
import ElanAgent.AccessControl.Bridge
import ElanAgent.Nac.Store
import ElanAgent.Nac.Authorization
import ElanAgent.Nac.Manager
import ElanAgent.Nac.Expiry
import ElanAgent.Nac.Events
import ElanAgent.Nac.Ledger
import ElanAgent.Nac.Failures
import ElanAgent.Nac.Reasons
import ElanAgent.Library.Monitor
import ElanAgent.Nac.Logins
import ElanAgent.Nac.Checks
import ElanAgent.Library.Mirror
import ElanAgent.Nac.Firewall
import ElanAgent.Library.Changes
import ElanAgent.Nac.FirewallCaches
import ElanAgent.Nac.Handlers
import ElanAgent.Nac.Delivery
import ElanAgent.Nac.Restart
import ElanAgent.Library.Watch
import ElanAgent.Nac.Disconnection
import ElanAgent.CaptivePortal.GuestAccess
import ElanAgent.CaptivePortal.Guests
import ElanAgent.CaptivePortal.GuestLists
import ElanAgent.Library.Chase
import ElanAgent.Dns.ReverseCache
import ElanAgent.Net.Address
import ElanAgent.CaptivePortal.Redirector
import ElanAgent.Session.DeviceTracker
import ElanAgent.Library.Index
import ElanAgent.Snmp.Manager
import ElanAgent.Snmp.Polls
import ElanAgent.Snmp.NewMacs
import ElanAgent.Snmp.Traps
import ElanAgent.Radius.Requests
import ElanAgent.Radius.Ports
import ElanAgent.Radius.LocalIds
import ElanAgent.Radius.Handlers
import ElanAgent.Radius.Macs
import ElanAgent.Radius.Messages
import ElanAgent.Library.Mqtt
import ElanAgent.Neuron.Dendrite
import ElanAgent.Neuron.ConfCacher
import ElanAgent.Neuron.Rpc
import ElanAgent.Neuron.Calls
import ElanAgent.Library.Machines
import ElanAgent.AccessControl.LocalIndexes
import ElanAgent.Nac.VlanNames
import ElanAgent.Library.Traversal
import ElanAgent.Authentication.Groups
import ElanAgent.Authentication.Provider
import ElanAgent.Authentication.Modules
import ElanAgent.Nac.ExpiryCheck
import ElanAgent.CaptivePortal.GuestRequests
import ElanAgent.Library.Candidates
import ElanAgent.Radius.PortSearch
import ElanAgent.Snmp.PortIndex
import ElanAgent.Radius.PortOwners
import ElanAgent.Snmp.Notifications
import ElanAgent.Snmp.Comparison
import ElanAgent.Snmp.DeviceMacs
import ElanAgent.Snmp.PortOfMac
import ElanAgent.Snmp.TrapMatches
import ElanAgent.Neuron.Subscriptions
import ElanAgent.Session.Hostnames
import ElanAgent.CaptivePortal.DeadNft
import ElanAgent.Library.Regex
import ElanAgent.Radius.MacTexts
import ElanAgent.Session.Fields
import ElanAgent.Network.Monitor
import ElanAgent.Authentication.RestProxy
import ElanAgent.Network.Configurator
import ElanAgent.Library.Retries
import ElanAgent.Radius.Configurator
import ElanAgent.Snmp.Configurator
import ElanAgent.Authentication.Files
import ElanAgent.Configurators
import ElanAgent.Session.KeepAlive
import ElanAgent.Session.Pings
import ElanAgent.Library.Expiring
import ElanAgent.Device.Attributes
import ElanAgent.AccessControl.Portals
import ElanAgent.AccessControl.Redirections
import ElanAgent.Network.MonitorRuns
import ElanAgent.Library.Retained
import ElanAgent.Neuron.Connection
import ElanAgent.Library.Failover
import ElanAgent.Authentication.Search
import ElanAgent.Authentication.Passwords
import ElanAgent.AccessControl.Connections
import ElanAgent.Snmp.Poller
